import Piggy.Secrets.Reconcile

/-!
# What a reconcile does to the tree

The programs of a reconcile run in a world with a file system. Here each of them gets its
specification: reading decides and changes nothing, and writing replaces one file by way
of a temporary one beside it.
-/

namespace Piggy.Store.Fs

/-! ## Ways and places -/

theorem SameWay.refl (w : Fs) (p : Path) : SameWay w w p := ⟨rfl, rfl, rfl⟩

theorem SameWay.trans {w w' w'' : Fs} {p : Path} (h : SameWay w w' p) (h' : SameWay w' w'' p) :
    SameWay w w'' p :=
  ⟨h'.entry.trans h.entry, h'.link.trans h.link, h'.through.trans h.through⟩

theorem MakesDirs.refl (w : Fs) (loc : Loc) : MakesDirs w w loc :=
  ⟨fun _ => .inl rfl, SameWay.refl w⟩

theorem lookup_set_self (w : Fs) (p : Path) (node : Option Node) :
    (w.set (w.entry p) node).lookup p = node := by
  simp only [lookup, set, Function.update_self]

theorem set_set (w : Fs) (loc : Loc) (node node' : Option Node) :
    (w.set loc node).set loc node' = w.set loc node' := by
  simp only [set, Function.update_idem]

/-- Setting a place to what is there already. -/
theorem set_of_nodes {w : Fs} {loc : Loc} {node : Option Node} (h : w.nodes loc = node) :
    w.set loc node = w := by
  simp only [set, ← h, Function.update_eq_self]

theorem target_of_none {fs : Fs} {p : Path} (h : fs.lookup p = none) :
    fs.target p = fs.entry p := by
  rw [Fs.target, h]

theorem target_of_dir {fs : Fs} {p : Path} (h : fs.lookup p = some .dir) :
    fs.target p = fs.entry p := by
  rw [Fs.target, h]

theorem target_of_file {fs : Fs} {p : Path} {data : Box.Bytes} {stamp : Fingerprint}
    (h : fs.lookup p = some (.file data stamp)) : fs.target p = fs.entry p := by
  rw [Fs.target, h]

/-- Only a link leads on. -/
theorem target_of_ne_other {fs : Fs} {p : Path} (h : ∀ stamp, fs.lookup p ≠ some (.other stamp)) :
    fs.target p = fs.entry p := by
  rw [target]
  split
  · next stamp hstamp => exact absurd hstamp (h stamp)
  · rfl

/-- A node that is no link is replaced without a change to any way. -/
theorem Replaces.eq_set {w w' : Fs} {loc : Loc} {node : Option Node} (h : Replaces w w' loc node)
    (hlink : ∀ stamp, w.nodes loc ≠ some (.other stamp)) : w' = w.set loc node := by
  have hways : ∀ p, SameWay w w' p := fun p =>
    h.ways p fun ⟨_, stamp, hstamp⟩ => hlink stamp hstamp
  refine Fs.ext h.nodes ?_ ?_ ?_
  · funext p
    exact (hways p).entry
  · funext p
    exact (hways p).link
  · funext p
    exact (hways p).through

end Piggy.Store.Fs

namespace Piggy.Secrets

open Piggy.Core Piggy.Box Piggy.Store Piggy.Batch

/-! ## Records -/

namespace State

/-- An inserted record is found under its key, and the others as before. -/
theorem get_insert (state : State) (p q : Path) (r : StateRecord) :
    (state.insert p r).get q =
      if q.components = p.components then some r else state.get q := by
  obtain ⟨version, entries⟩ := state
  simp only [State.insert, State.get]
  induction entries with
  | nil =>
    by_cases h : q.components = p.components
    · simp [insertRecord, h]
    · simp [insertRecord, h, Ne.symm h]
  | cons x entries ih =>
    obtain ⟨p', r'⟩ := x
    rw [insertRecord]
    split
    · next hkey =>
      by_cases h : q.components = p.components
      · simp [h, hkey]
      · have hne : ¬ p'.components = q.components := fun heq => h (heq.symm.trans hkey)
        simp [h, hne]
    · next hkey =>
      split
      · by_cases h : q.components = p.components
        · simp [h]
        · simp [h, Ne.symm h]
      · by_cases h : p'.components = q.components
        · have hne : ¬ q.components = p.components := fun heq => hkey (h.trans heq)
          simp [h, hne]
        · simpa [h] using ih

theorem get_remove (state : State) (p q : Path) :
    (state.remove p).get q = if q.components = p.components then none else state.get q := by
  simp only [State.remove, State.get, List.find?_filter]
  split
  · next h =>
    rw [Option.map_eq_none_iff, List.find?_eq_none]
    simp [h]
  · next h =>
    congr 2
    funext x
    by_cases hx : x.1.components = q.components
    · simp [hx, h]
    · simp [hx]

theorem get_foldl_remove (orphans : List Path) (state : State) (q : Path) :
    (orphans.foldl State.remove state).get q =
      if ∃ p ∈ orphans, p.components = q.components then none else state.get q := by
  induction orphans generalizing state with
  | nil => simp
  | cons p orphans ih =>
    rw [List.foldl_cons, ih, get_remove]
    by_cases h : q.components = p.components
    · simp [h]
    · by_cases h' : ∃ p ∈ orphans, p.components = q.components
      · simp [h']
      · simp [h', h, Ne.symm h]

end State
/-! ## The world -/

/-- The file system, how often an unlock session was opened or used, and the operations
that may have changed the tree. -/
structure World where
  fs : Fs
  unlocks : Nat
  log : List FsOp

/-- Whether an operation may change the tree. -/
def mutates : FsOp → Bool
  | .read _ | .readToString _ | .isFile _ | .modified _ | .lstat _ | .syncAll _ => false
  | .createDirAll _ _ | .setPermissions _ _ | .createNew _ | .writeAll _ _ | .removeFile _
  | .rename _ _ => true

variable {Scalar Point Rng : Type} (ssl : OpenSsl Scalar Point Rng)

/-- Decrypting an ebox may give a plaintext: some card or agent unlocks it and its frames are
those of the plaintext. -/
def Decrypts (stream : EboxStream) (bytes plain : Bytes) : Prop :=
  ∃ (σ τ : Type) (card : Option (CardOracle σ)) (agent : Option (EcdhOracle τ)) (s : σ) (t : τ),
    (decryptOne ssl stream bytes card agent s t).1 = .ok plain

/-- What one operation may answer and do. -/
def World.Step (w : World) : (op : BatchOp) → op.Ans → World → Prop
  | .fs op, answer, w' =>
    Fs.Step w.fs op answer w'.fs ∧ w'.unlocks = w.unlocks ∧
      w'.log = if mutates op then w.log ++ [op] else w.log
  | .decrypt stream bytes, answer, w' =>
    w' = { w with unlocks := w.unlocks + 1 } ∧
      ∀ plain, answer = .ok plain → Decrypts ssl stream bytes plain
  | .openBackend _ _, _, w' => w' = { w with unlocks := w.unlocks + 1 }
  | _, _, w' => w' = w

/-- An operation that only looks leaves the world as it is. -/
theorem eq_of_looks {w w' : World} {op : FsOp} {answer : op.Ans} (hop : mutates op = false)
    (h : World.Step ssl w (.fs op) answer w') : w' = w := by
  obtain ⟨hfs, hunlocks, hlog⟩ := h
  rw [hop] at hlog
  have hsame : w'.fs = w.fs := by
    cases op with
    | read p =>
      rcases answer with e | data
      · exact hfs
      · exact hfs.1
    | readToString p =>
      rcases answer with e | text
      · exact hfs.1
      · exact hfs.1
    | lstat p =>
      rcases answer with e | kind
      · exact hfs.1
      · exact hfs.1
    | isFile p => exact hfs
    | modified p => exact hfs
    | syncAll p => exact hfs
    | _ => cases hop
  cases w
  cases w'
  simp_all

/-! ## Writing -/

/-- What replacing a file comes to: directories are made, and then nothing more happens, or a
temporary file is left where nothing was, or the file is replaced. -/
inductive Wrote (w : Fs) (parent path tmp : Path) (contents : Bytes) (mode : UInt32) :
    Except String Fingerprint → Fs → Prop where
  | refused {w' : Fs} (e : String) (hdirs : Fs.MakesDirs w w' (w.target parent)) :
      Wrote w parent path tmp contents mode (.error e) w'
  | left {w₁ : Fs} (e : String) (data : Bytes) (stamp : Fingerprint)
      (hdirs : Fs.MakesDirs w w₁ (w.target parent)) (habsent : w₁.lookup tmp = none) :
      Wrote w parent path tmp contents mode (.error e)
        (w₁.set (w₁.entry tmp) (some (.file data stamp)))
  | replaced {w₁ w' : Fs} (r : Except String Fingerprint) (stamp : Fingerprint)
      (hdirs : Fs.MakesDirs w w₁ (w.target parent)) (hmode : stamp.mode = mode)
      (hnotdir : w₁.lookup path ≠ some .dir)
      (hreplaces : Fs.Replaces w₁ w' (w₁.entry path) (some (.file contents stamp)))
      (hr : ∀ fp, r = .ok fp → ∃ node, w'.lookup path = some node ∧
        (node.HasKind (.directory fp) ∨ ∃ regular, node.HasKind (.file regular fp))) :
      Wrote w parent path tmp contents mode r w'

/-- Filling the temporary file: it holds the contents and has the mode, or it is still some file. -/
private theorem fill_spec (contents : Bytes) (mode : UInt32) (tmp : Path) {w : World} {w₁ : Fs}
    {stamp : Fingerprint} (hw : w.fs = w₁.set (w₁.entry tmp) (some (.file [] stamp))) :
    Prog.Ensures (World.Step ssl) (writeAtomically.fill contents mode tmp)
      (fun r w' => w'.unlocks = w.unlocks ∧ ∃ data stamp,
        w'.fs = w₁.set (w₁.entry tmp) (some (.file data stamp)) ∧
        (r = .ok () → data = contents ∧ stamp.mode = mode)) w := by
  -- Every operation finds the temporary file and leaves another one in its place.
  have hfound : ∀ {v : Fs} {data : Bytes} {stamp : Fingerprint},
      v = w₁.set (w₁.entry tmp) (some (.file data stamp)) →
      v.lookup tmp = some (.file data stamp) := by
    rintro v data stamp rfl
    exact Fs.lookup_set_self w₁ tmp _
  have hnext : ∀ {v : Fs} {data data' : Bytes} {stamp stamp' : Fingerprint},
      v = w₁.set (w₁.entry tmp) (some (.file data stamp)) →
      v.set (v.entry tmp) (some (.file data' stamp')) =
        w₁.set (w₁.entry tmp) (some (.file data' stamp')) := by
    rintro v data data' stamp stamp' rfl
    exact Fs.set_set w₁ _ _ _
  simp only [writeAtomically.fill, fsOp, Prog.op_bind, Prog.ensures_call]
  rintro (e | ⟨⟩) w₂ ⟨hfs, hunlocks, -⟩
  · refine ⟨hunlocks, ?_⟩
    rcases hfs with hsame | ⟨old, stamp', part, stamp'', -, -, hset⟩
    · exact ⟨[], stamp, hsame.trans hw, (fun h => by cases h)⟩
    · exact ⟨part, stamp'', hset.trans (hnext hw), (fun h => by cases h)⟩
  · obtain ⟨old, stamp', written, -, -, hset⟩ := hfs
    have hwritten := hset.trans (hnext hw)
    simp only [Prog.ensures_call]
    rintro (e | ⟨⟩) w₃ ⟨hfs', hunlocks', -⟩
    · exact ⟨hunlocks'.trans hunlocks, contents, written, Eq.trans hfs' hwritten,
        (fun h => by cases h)⟩
    · rcases hfs' with ⟨data, old', stamp'', hlookup, hmode, hset'⟩ | ⟨hno, -⟩
      · rw [hfound hwritten] at hlookup
        cases hlookup
        have hsealed := hset'.trans (hnext hwritten)
        intro answer w₄ hsync
        obtain ⟨hfs'', hunlocks'', -⟩ := hsync
        refine ⟨hunlocks''.trans (hunlocks'.trans hunlocks), contents, stamp'', ?_, ?_⟩
        · rcases answer with e | ⟨⟩
          · exact Eq.trans hfs'' hsealed
          · exact Eq.trans hfs'' hsealed
        · exact fun _ => ⟨rfl, hmode⟩
      · exact absurd (hfound hwritten) (hno _ _)

/-- Removing the temporary file: it is gone or still there. -/
private theorem removeTmp_spec {w w' : World} {w₁ : Fs} {tmp : Path} {data : Bytes}
    {stamp : Fingerprint} {answer : (FsOp.removeFile tmp).Ans} (habsent : w₁.lookup tmp = none)
    (hw : w.fs = w₁.set (w₁.entry tmp) (some (.file data stamp)))
    (h : World.Step ssl w (.fs (.removeFile tmp)) answer w') :
    w'.fs = w₁ ∨ w'.fs = w₁.set (w₁.entry tmp) (some (.file data stamp)) := by
  obtain ⟨hfs, -, -⟩ := h
  rcases answer with e | ⟨⟩
  · exact .inr (hfs.1.trans hw)
  · refine .inl ?_
    have hfile : w.fs.nodes (w.fs.entry tmp) = some (.file data stamp) := by
      rw [hw]
      exact Fs.lookup_set_self w₁ tmp _
    have hset := hfs.2.eq_set fun stamp' => by
      rw [hfile]
      exact fun h => nomatch h
    rw [hset, hw]
    exact (Fs.set_set w₁ _ _ _).trans (Fs.set_of_nodes habsent)

/-- The directory and the name of a file that can be written. -/
def Writable (path parent : Path) (fileName : String) : Prop :=
  directoryOf path = some parent ∧ path.fileName = some fileName

/-- The temporary file of a file that can be written. -/
def tmpOf (pid : UInt32) (path : Path) : Path :=
  match directoryOf path, path.fileName with
  | some parent, some fileName => tmpPath pid parent fileName
  | _, _ => path

theorem tmpOf_of_writable {path parent : Path} {fileName : String}
    (h : Writable path parent fileName) (pid : UInt32) :
    tmpOf pid path = tmpPath pid parent fileName := by
  simp only [tmpOf, h.1, h.2]

/-- Replacing a file. -/
theorem writeAtomically_spec (pid : UInt32) (path : Path) (contents : Bytes) (mode : UInt32)
    (w : World) :
    Prog.Ensures (World.Step ssl) (writeAtomically pid path contents mode)
      (fun r w' => w'.unlocks = w.unlocks ∧
        ((w' = w ∧ ∃ e, r = .error e) ∨
        ∃ parent fileName, Writable path parent fileName ∧
          Wrote w.fs parent path (tmpOf pid path) contents mode r w'.fs)) w := by
  rw [writeAtomically]
  rcases hparent : directoryOf path with _ | parent
  · exact ⟨rfl, .inl ⟨rfl, _, rfl⟩⟩
  rcases hname : path.fileName with _ | fileName
  · exact ⟨rfl, .inl ⟨rfl, _, rfl⟩⟩
  rw [tmpOf_of_writable ⟨hparent, hname⟩]
  simp only [fsOp, Prog.op_bind, Prog.ensures_call]
  rintro (e | ⟨⟩) w₁ ⟨hdirs, hunlocks, -⟩
  · exact ⟨hunlocks, .inr ⟨parent, fileName, ⟨hparent, hname⟩, .refused _ hdirs⟩⟩
  rw [Prog.ensures_call]
  rintro (e | ⟨⟩) w₂ ⟨hcreate, hunlocks', -⟩
  · refine ⟨hunlocks'.trans hunlocks, .inr ⟨parent, fileName, ⟨hparent, hname⟩, ?_⟩⟩
    rw [Eq.trans hcreate rfl]
    exact .refused _ hdirs
  obtain ⟨habsent, stamp, hset⟩ := hcreate
  refine (fill_spec ssl contents mode _ hset).bind ?_
  rintro filled w₃ ⟨hunlocks₃, data, stamp', hfilled, hfull⟩
  have hsame : w₃.unlocks = w.unlocks := hunlocks₃.trans (hunlocks'.trans hunlocks)
  -- What is left when the temporary file is removed, or cannot be.
  have hfailed : ∀ (e : String) {v v' : World}
      {answer : (FsOp.removeFile (tmpPath pid parent fileName)).Ans},
      v.fs = w₃.fs → v.unlocks = w.unlocks →
      World.Step ssl v (.fs (.removeFile (tmpPath pid parent fileName))) answer v' →
      v'.unlocks = w.unlocks ∧
        Wrote w.fs parent path (tmpPath pid parent fileName) contents mode (.error e) v'.fs := by
    intro e v v' answer hfs hv hremove
    refine ⟨hremove.2.1.trans hv, ?_⟩
    rcases removeTmp_spec ssl habsent (hfs.trans hfilled) hremove with hgone | hthere
    · rw [hgone]
      exact .refused e hdirs
    · rw [hthere]
      exact .left e data stamp' hdirs habsent
  rcases filled with e | ⟨⟩
  · rw [Prog.ensures_call]
    intro answer w₄ hremove
    obtain ⟨hunlocks₄, hwrote⟩ := hfailed _ rfl hsame hremove
    exact ⟨hunlocks₄, .inr ⟨parent, fileName, ⟨hparent, hname⟩, hwrote⟩⟩
  obtain ⟨rfl, hmode⟩ := hfull rfl
  rw [Prog.ensures_call]
  rintro (e | ⟨⟩) w₄ hrename
  · rw [Prog.ensures_call]
    intro answer w₅ hremove
    obtain ⟨hunlocks₅, hwrote⟩ := hfailed _ hrename.1 (hrename.2.1.trans hsame) hremove
    exact ⟨hunlocks₅, .inr ⟨parent, fileName, ⟨hparent, hname⟩, hwrote⟩⟩
  · obtain ⟨⟨node, hnode, -, hnotdir, hreplaces⟩, hunlocks₄, -⟩ := hrename
    rw [hfilled] at hnode hnotdir hreplaces
    obtain rfl : .file data stamp' = node :=
      Option.some.inj ((Fs.lookup_set_self w₁.fs _ _).symm.trans hnode)
    -- Taking the temporary file away leaves the tree with its directories.
    have hbase : (w₁.fs.set (w₁.fs.entry (tmpPath pid parent fileName))
        (some (.file data stamp'))).set (w₁.fs.entry (tmpPath pid parent fileName)) none = w₁.fs :=
      (Fs.set_set w₁.fs _ _ _).trans (Fs.set_of_nodes habsent)
    have hreplaced : Fs.Replaces w₁.fs w₄.fs (w₁.fs.entry path) (some (.file data stamp')) := by
      rw [← hbase]
      exact hreplaces
    have hnotdir₁ : w₁.fs.lookup path ≠ some .dir := by
      intro hdir
      by_cases hplace : w₁.fs.entry path = w₁.fs.entry (tmpPath pid parent fileName)
      · rw [Fs.lookup, hplace] at hdir
        cases habsent.symm.trans hdir
      · exact hnotdir ((Function.update_of_ne hplace _ _).trans hdir)
    rw [Prog.ensures_call]
    intro answer w₅ hlstat
    have hsame₅ : w₅.unlocks = w.unlocks := hlstat.2.1.trans (hunlocks₄.trans hsame)
    rcases answer with e | kind
    · refine ⟨hsame₅, .inr ⟨parent, fileName, ⟨hparent, hname⟩, ?_⟩⟩
      rw [show w₅.fs = w₄.fs from hlstat.1.1]
      exact .replaced _ stamp' hdirs hmode hnotdir₁ hreplaced (fun fp h => by cases h)
    · obtain ⟨⟨hfs, node, hnode, hkind⟩, -, -⟩ := hlstat
      rcases kind with fp | ⟨regular, fp⟩
      · refine ⟨hsame₅, .inr ⟨parent, fileName, ⟨hparent, hname⟩, ?_⟩⟩
        rw [hfs]
        refine .replaced _ stamp' hdirs hmode hnotdir₁ hreplaced ?_
        rintro fp' ⟨⟩
        exact ⟨node, hnode, .inl hkind⟩
      · refine ⟨hsame₅, .inr ⟨parent, fileName, ⟨hparent, hname⟩, ?_⟩⟩
        rw [hfs]
        refine .replaced _ stamp' hdirs hmode hnotdir₁ hreplaced ?_
        rintro fp' ⟨⟩
        exact ⟨node, hnode, .inr ⟨regular, hkind⟩⟩

/-! ## What a write keeps -/

/-- What is kept by a write: the ways that do not lead over a link it replaces, and the nodes that
were there, apart from the replaced one. Links are not made. -/
structure Kept (w w' : Fs) (path : Path) : Prop where
  ways : ∀ p, ¬ w.Carries (w.entry path) p → Fs.SameWay w w' p
  nodes : ∀ l, w.nodes l ≠ none → l ≠ w.entry path → w'.nodes l = w.nodes l
  links : ∀ l stamp, w'.nodes l = some (.other stamp) → w.nodes l = some (.other stamp)

private theorem nodes_of_makesDirs {w w' : Fs} {loc l : Loc} (h : Fs.MakesDirs w w' loc)
    (hl : w.nodes l ≠ none) : w'.nodes l = w.nodes l := by
  rcases h.nodes l with hsame | ⟨hnone, -, -⟩
  · exact hsame
  · exact absurd hnone hl

private theorem links_of_makesDirs {w w' : Fs} {loc l : Loc} {stamp : Fingerprint}
    (h : Fs.MakesDirs w w' loc) (hl : w'.nodes l = some (.other stamp)) :
    w.nodes l = some (.other stamp) := by
  rcases h.nodes l with hsame | ⟨-, -, hdir⟩
  · exact hsame.symm.trans hl
  · exact nomatch hdir.symm.trans hl

private theorem carries_of_makesDirs {w w' : Fs} {loc l : Loc} {p : Path}
    (h : Fs.MakesDirs w w' loc) (hl : w'.Carries l p) : w.Carries l p := by
  obtain ⟨hthrough, stamp, hstamp⟩ := hl
  exact ⟨(h.ways p).through ▸ hthrough, stamp, links_of_makesDirs h hstamp⟩

/-- Every write keeps what a write keeps. -/
theorem Wrote.kept {w w' : Fs} {parent path tmp : Path} {contents : Bytes} {mode : UInt32}
    {r : Except String Fingerprint} (h : Wrote w parent path tmp contents mode r w') :
    Kept w w' path := by
  cases h with
  | refused e hdirs =>
    exact ⟨fun p _ => hdirs.ways p, fun l hl _ => nodes_of_makesDirs hdirs hl,
      fun l stamp => links_of_makesDirs hdirs⟩
  | @left w₁ e data stamp hdirs habsent =>
    refine ⟨fun p _ => ⟨(hdirs.ways p).entry, (hdirs.ways p).link, (hdirs.ways p).through⟩, ?_, ?_⟩
    · intro l hl _
      have hkept := nodes_of_makesDirs hdirs hl
      have hne : l ≠ w₁.entry tmp := by
        rintro rfl
        exact hl (hkept.symm.trans habsent)
      exact (Function.update_of_ne hne _ _).trans hkept
    · intro l stamp' hl
      by_cases hplace : l = w₁.entry tmp
      · subst hplace
        exact nomatch (Function.update_self _ _ _).symm.trans hl
      · exact links_of_makesDirs hdirs ((Function.update_of_ne hplace _ _).symm.trans hl)
  | @replaced w₁ w' r stamp hdirs hmode hnotdir hreplaces hr =>
    have hentry : w₁.entry path = w.entry path := (hdirs.ways path).entry
    rw [hentry] at hreplaces
    refine ⟨?_, ?_, ?_⟩
    · intro p hp
      exact (hdirs.ways p).trans (hreplaces.ways p fun h => hp (carries_of_makesDirs hdirs h))
    · intro l hl hne
      rw [hreplaces.nodes, Function.update_of_ne hne]
      exact nodes_of_makesDirs hdirs hl
    · intro l stamp' hl
      rw [hreplaces.nodes] at hl
      by_cases hplace : l = w.entry path
      · subst hplace
        exact nomatch (Function.update_self _ _ _).symm.trans hl
      · exact links_of_makesDirs hdirs ((Function.update_of_ne hplace _ _).symm.trans hl)

/-- What is at a place after a write, apart from the temporary file: what was there before, a
directory where nothing was, or the contents. -/
theorem Wrote.nodes {w w' : Fs} {parent path tmp : Path} {contents : Bytes} {mode : UInt32}
    {r : Except String Fingerprint} (h : Wrote w parent path tmp contents mode r w') {l : Loc}
    (hl : l ≠ w.entry tmp) :
    w'.nodes l = w.nodes l ∨
      w.nodes l = none ∧ l <+: w.target parent ∧ w'.nodes l = some .dir ∨
      l = w.entry path ∧ ∃ stamp, w'.nodes l = some (.file contents stamp) := by
  cases h with
  | refused e hdirs =>
    rcases hdirs.nodes l with hsame | hdir
    · exact .inl hsame
    · exact .inr (.inl hdir)
  | @left w₁ e data stamp hdirs habsent =>
    have hother : (w₁.set (w₁.entry tmp) (some (.file data stamp))).nodes l = w₁.nodes l := by
      refine Function.update_of_ne ?_ _ _
      rw [(hdirs.ways tmp).entry]
      exact hl
    rw [hother]
    rcases hdirs.nodes l with hsame | hdir
    · exact .inl hsame
    · exact .inr (.inl hdir)
  | @replaced w₁ w' r stamp hdirs hmode hnotdir hreplaces hr =>
    rw [hreplaces.nodes, (hdirs.ways path).entry]
    by_cases hplace : l = w.entry path
    · subst hplace
      exact .inr (.inr ⟨rfl, stamp, Function.update_self _ _ _⟩)
    · rw [Function.update_of_ne hplace]
      rcases hdirs.nodes l with hsame | hdir
      · exact .inl hsame
      · exact .inr (.inl hdir)

/-- A write that succeeds leaves the contents under the path, with the mode and the fingerprint
that is kept. -/
theorem Wrote.found {w w' : Fs} {parent path tmp : Path} {contents : Bytes} {mode : UInt32}
    {fp : Fingerprint} (h : Wrote w parent path tmp contents mode (.ok fp) w')
    (hway : ¬ w.Carries (w.entry path) path) :
    w'.lookup path = some (.file contents fp) ∧ fp.mode = mode := by
  cases h with
  | @replaced w₁ w' r stamp hdirs hmode hnotdir hreplaces hr =>
    have hentry : w₁.entry path = w.entry path := (hdirs.ways path).entry
    have hsame := hreplaces.ways path fun h => by
      rw [hentry] at h
      exact hway (carries_of_makesDirs hdirs h)
    have hfile : w'.lookup path = some (.file contents stamp) := by
      rw [Fs.lookup, hsame.entry, hreplaces.nodes, Function.update_self]
    obtain ⟨node, hnode, hkind⟩ := hr fp rfl
    obtain rfl : .file contents stamp = node := Option.some.inj (hfile.symm.trans hnode)
    rcases hkind with hkind | ⟨regular, hkind⟩
    · cases hkind
    · cases hkind
      exact ⟨hfile, hmode⟩

/-! ## Reading -/

/-- The state that a state file stands for. -/
def StateIs (libs : Libs) (fs : Fs) (path : Path) (state : State) : Prop :=
  fs.nodes (fs.target path) = none ∧ state = State.empty ∨
    ∃ text stamp, fs.nodes (fs.target path) = some (.file (strBytes text) stamp) ∧
      libs.stateFromJson text = .ok state ∧ state.version = stateVersion

theorem loadState_spec (libs : Libs) (path : Path) (w : World) :
    Prog.Ensures (World.Step ssl) (loadState libs path)
      (fun r w' => w' = w ∧ ∀ state, r = .ok state → StateIs libs w.fs path state) w := by
  simp only [loadState, fsOp, Prog.op_bind, Prog.ensures_call]
  rintro (e | text) w' hstep
  · obtain rfl := eq_of_looks ssl rfl hstep
    obtain ⟨⟨-, habsent⟩, -, -⟩ := hstep
    dsimp only
    split
    · next hnotFound =>
      refine ⟨rfl, ?_⟩
      rintro state ⟨⟩
      exact .inl ⟨habsent hnotFound, rfl⟩
    · exact ⟨rfl, (fun state h => by cases h)⟩
  · obtain rfl := eq_of_looks ssl rfl hstep
    obtain ⟨⟨-, stamp, hfile⟩, -, -⟩ := hstep
    dsimp only
    rcases hjson : libs.stateFromJson text with e | state
    · exact ⟨rfl, (fun state h => by cases h)⟩
    · dsimp only
      split
      · exact ⟨rfl, (fun state h => by cases h)⟩
      · next hversion =>
        refine ⟨rfl, ?_⟩
        rintro state' ⟨⟩
        exact .inr ⟨text, stamp, hfile, hjson, not_not.mp hversion⟩

/-- A target that may be written: it was absent, or it is recorded, or it is no directory and may
be adopted. -/
def Owned (args : ReconcileArgs) (state : State) (fs : Fs) (e : Entry) : Prop :=
  fs.lookup e.target = none ∨ (state.get e.target).isSome ∨
    (∃ node, fs.lookup e.target = some node ∧ node ≠ .dir) ∧ (e.adopt || args.adopt) = true

/-- What examining an entry finds. -/
inductive Examined (libs : Libs) (args : ReconcileArgs) (state : State) (fs : Fs) (e : Entry) :
    Outcome ⊕ Pending → Prop where
  | failed (message : String) : Examined libs args state fs e (.inl (.failed message))
  | upToDate (bytes data : Bytes) (stamp : Fingerprint) (record : StateRecord)
      (hebox : ∃ stamp, fs.nodes (fs.target e.ebox) = some (.file bytes stamp))
      (hfile : fs.lookup e.target = some (.file data stamp))
      (hrecord : state.get e.target = some record) (hstamp : record.fingerprint = stamp)
      (hsha : record.eboxSha256 = libs.sha256 bytes) :
      Examined libs args state fs e (.inl .upToDate)
  | wouldWrite (reason : WriteReason) (hcheck : args.check = true) :
      Examined libs args state fs e (.inl (.wouldWrite reason))
  | pending (p : Pending) (hentry : p.entry = e) (hsha : p.eboxSha256 = libs.sha256 p.bytes)
      (hebox : ∃ stamp, fs.nodes (fs.target e.ebox) = some (.file p.bytes stamp))
      (hcheck : args.check = false) (howned : Owned args state fs e) :
      Examined libs args state fs e (.inr p)

/-- What the kind of a target says. -/
def TargetKind.Holds (fs : Fs) (p : Path) : TargetKind → Prop
  | absent => fs.lookup p = none
  | directory => True
  | file regular fp => ∃ node, fs.lookup p = some node ∧ node.HasKind (.file regular fp)

/-- What the classification of a target means. -/
private theorem examined_of_classify {libs : Libs} {args : ReconcileArgs} {state : State} {w : World}
    {e : Entry} {bytes : Bytes} (kind : TargetKind)
    (hebox : ∃ stamp, w.fs.nodes (w.fs.target e.ebox) = some (.file bytes stamp))
    (hkind : kind.Holds w.fs e.target) :
    Prog.Ensures (World.Step ssl)
      (match classify kind (state.get e.target) (libs.sha256 bytes) (e.adopt || args.adopt) with
      | .fresh => pure (.inl .upToDate)
      | .conflict message => pure (.inl (.failed message))
      | .write reason =>
        if args.check then pure (.inl (.wouldWrite reason))
        else pure (.inr { entry := e, eboxSha256 := libs.sha256 bytes, bytes, reason }))
      (fun r w' => w' = w ∧ Examined libs args state w.fs e r) w := by
  -- What is to be written is owned, and it is written only without `--check`.
  have hwrite : ∀ reason, Owned args state w.fs e →
      Prog.Ensures (World.Step ssl)
        (if args.check then pure (.inl (.wouldWrite reason))
        else pure (.inr { entry := e, eboxSha256 := libs.sha256 bytes, bytes, reason }))
        (fun r w' => w' = w ∧ Examined libs args state w.fs e r) w := by
    intro reason howned
    cases hcheck : args.check with
    | true => exact ⟨rfl, .wouldWrite reason hcheck⟩
    | false => exact ⟨rfl, .pending _ rfl rfl hebox hcheck howned⟩
  rcases kind with _ | _ | ⟨regular, fp⟩
  · exact hwrite .missing (.inl hkind)
  · exact ⟨rfl, .failed _⟩
  · obtain ⟨node, hnode, hfile⟩ := hkind
    rcases hget : state.get e.target with _ | record
    · simp only [classify]
      cases hadopt : e.adopt || args.adopt with
      | true =>
        refine hwrite .adopt (.inr (.inr ⟨⟨node, hnode, ?_⟩, hadopt⟩))
        rintro rfl
        cases hfile
      | false => exact ⟨rfl, .failed _⟩
    · have howned : Owned args state w.fs e := .inr (.inl (by rw [hget]; rfl))
      simp only [classify]
      split
      · next hchanged =>
        split at hchanged
        · cases hchanged
        · split at hchanged
          · cases hchanged
          · next hsame hsha =>
            rw [Bool.or_eq_true, not_or] at hsame
            cases hfile with
            | file data stamp =>
              refine ⟨rfl, .upToDate bytes data fp record hebox hnode hget ?_ (not_not.mp hsha)⟩
              have hstamp : ¬ decide (fp ≠ record.fingerprint) = true := hsame.2
              exact (not_not.mp fun hne => hstamp (decide_eq_true hne)).symm
            | other stamp => exact absurd rfl hsame.1
      · next hchanged =>
        split at hchanged
        · cases hchanged
        · split at hchanged <;> cases hchanged
      · exact hwrite _ howned

theorem examine_spec (libs : Libs) (args : ReconcileArgs) (state : State) (e : Entry) (w : World) :
    Prog.Ensures (World.Step ssl) (examine libs args state e)
      (fun r w' => w' = w ∧ Examined libs args state w.fs e r) w := by
  simp only [examine, inspectTarget, fsOp, Prog.op_bind, Prog.ensures_call]
  rintro (e' | bytes) w' hread
  · obtain rfl := eq_of_looks ssl rfl hread
    exact ⟨rfl, .failed _⟩
  · obtain rfl := eq_of_looks ssl rfl hread
    obtain ⟨⟨-, hebox⟩, -, -⟩ := hread
    simp only [Prog.call_bind, Prog.ensures_call]
    rintro (e' | kind) w' hlstat
    · obtain rfl := eq_of_looks ssl rfl hlstat
      obtain ⟨⟨-, habsent⟩, -, -⟩ := hlstat
      dsimp only
      split
      · next hnotFound => exact examined_of_classify ssl .absent hebox (habsent hnotFound)
      · exact ⟨rfl, .failed _⟩
    · obtain rfl := eq_of_looks ssl rfl hlstat
      obtain ⟨⟨-, node, hnode, hkind⟩, -, -⟩ := hlstat
      rcases kind with fp | ⟨regular, fp⟩
      · exact examined_of_classify ssl .directory hebox trivial
      · exact examined_of_classify ssl (.file regular fp) hebox ⟨node, hnode, hkind⟩

/-- Examining the entries changes nothing. -/
theorem examineAll_spec (libs : Libs) (args : ReconcileArgs) (state : State) (entries : List Entry)
    (w : World) :
    Prog.Ensures (World.Step ssl) (examineAll libs args state entries)
      (fun plans w' => w' = w ∧ List.Forall₂ (Examined libs args state w.fs) entries plans) w := by
  induction entries with
  | nil => exact ⟨rfl, .nil⟩
  | cons e entries ih =>
    refine (examine_spec ssl libs args state e w).bind ?_
    rintro plan w' ⟨rfl, hplan⟩
    refine ih.bind ?_
    rintro plans w' ⟨rfl, hplans⟩
    exact ⟨rfl, .cons hplan hplans⟩

/-- The entries that are to be written were examined so. -/
theorem examined_of_mem_pending {libs : Libs} {args : ReconcileArgs} {state : State} {fs : Fs}
    {entries : List Entry} {plans : List (Outcome ⊕ Pending)} {p : Pending}
    (h : List.Forall₂ (Examined libs args state fs) entries plans)
    (hp : p ∈ plans.filterMap Sum.getRight?) :
    p.entry ∈ entries ∧ Examined libs args state fs p.entry (.inr p) := by
  induction h with
  | nil => cases hp
  | @cons e plan entries plans hplan _ ih =>
    rcases plan with outcome | p'
    · obtain ⟨hmem, hexamined⟩ := ih hp
      exact ⟨List.mem_cons_of_mem _ hmem, hexamined⟩
    · rcases List.mem_cons.mp hp with rfl | hp
      · have hentry : p.entry = e := by
          cases hplan
          assumption
        rw [hentry]
        exact ⟨List.mem_cons_self, hplan⟩
      · obtain ⟨hmem, hexamined⟩ := ih hp
        exact ⟨List.mem_cons_of_mem _ hmem, hexamined⟩

/-- They come in the order of the entries. -/
theorem pending_sublist {libs : Libs} {args : ReconcileArgs} {state : State} {fs : Fs}
    {entries : List Entry} {plans : List (Outcome ⊕ Pending)}
    (h : List.Forall₂ (Examined libs args state fs) entries plans) :
    ((plans.filterMap Sum.getRight?).map Pending.entry).Sublist entries := by
  induction h with
  | nil => exact List.Sublist.refl _
  | @cons e plan entries plans hplan _ ih =>
    rcases plan with outcome | p
    · exact ih.cons e
    · have hentry : p.entry = e := by
        cases hplan
        assumption
      rw [← hentry]
      exact ih.cons_cons p.entry

/-- Nothing is to be written under `--check`. -/
theorem pending_eq_nil {libs : Libs} {args : ReconcileArgs} {state : State} {fs : Fs}
    {entries : List Entry} {plans : List (Outcome ⊕ Pending)} (hcheck : args.check = true)
    (h : List.Forall₂ (Examined libs args state fs) entries plans) :
    plans.filterMap Sum.getRight? = [] := by
  refine List.eq_nil_iff_forall_not_mem.mpr fun p hp => ?_
  cases (examined_of_mem_pending h hp).2 with
  | pending _ _ _ _ hcheck' _ =>
    rw [hcheck] at hcheck'
    cases hcheck'

/-! ## Decrypting -/

/-- A result of decrypting is a plaintext of the ebox. -/
def Plain (p : Pending) (result : Except String Bytes) : Prop :=
  ∀ plain, result = .ok plain → ∃ stream, EboxStream.fromBytes p.bytes = .ok stream ∧
    Decrypts ssl stream p.bytes plain

/-- A parsed ebox is the one of its bytes. -/
private def Parses (x : Parsed) : Prop :=
  ∀ stream, x.2 = .ok stream → EboxStream.fromBytes x.1.bytes = .ok stream

private theorem parses_parsePending (p : Pending) : Parses (parsePending p) := by
  rw [Parses, parsePending]
  rcases hparse : EboxStream.fromBytes p.bytes with e | stream
  · exact fun stream h => nomatch h
  · rintro stream' ⟨⟩
    exact hparse

private theorem failAll_plain (message : String) (parsed : List Parsed) :
    List.Forall₂ (Plain ssl) (parsed.map (·.1)) (failAll message parsed) := by
  induction parsed with
  | nil => exact .nil
  | cons x parsed ih =>
    refine .cons ?_ ih
    obtain ⟨p, e | stream⟩ := x
    · exact fun plain h => nomatch h
    · exact fun plain h => nomatch h

private theorem decryptAll_spec (fatal : Option String) (parsed : List Parsed)
    (hparsed : ∀ x ∈ parsed, Parses x) (w : World) :
    Prog.Ensures (World.Step ssl) (decryptAll fatal parsed)
      (fun results w' => w'.fs = w.fs ∧ w'.log = w.log ∧
        List.Forall₂ (Plain ssl) (parsed.map (·.1)) results) w := by
  induction parsed generalizing fatal w with
  | nil =>
    rw [decryptAll]
    exact ⟨rfl, rfl, .nil⟩
  | cons x parsed ih =>
    have hrest : ∀ x ∈ parsed, Parses x := fun y hy => hparsed y (List.mem_cons_of_mem _ hy)
    -- An entry that fails gives no plaintext, and the others go on.
    have hnone : ∀ (message : String) (fatal : Option String) (w : World),
        Prog.Ensures (World.Step ssl) (decryptAll fatal parsed >>= fun results =>
            pure (.error message :: results))
          (fun results w' => w'.fs = w.fs ∧ w'.log = w.log ∧
            List.Forall₂ (Plain ssl) (x.1 :: parsed.map (·.1)) results) w := by
      intro message fatal w
      refine (ih fatal hrest w).bind ?_
      rintro results w' ⟨hfs, hlog, hall⟩
      exact ⟨hfs, hlog, .cons (fun plain h => nomatch h) hall⟩
    obtain ⟨p, e | stream⟩ := x
    · rw [decryptAll]
      exact hnone e fatal w
    · rcases fatal with _ | reason
      · simp only [decryptAll, Prog.op_bind, Prog.ensures_call]
        rintro answer w₁ ⟨rfl, hplain⟩
        rcases answer with e | plain
        · obtain h := hnone (describeDiagnostic e.diagnostic)
            (if e.fatalForBatch then some (describeDiagnostic e.diagnostic) else none)
            { w with unlocks := w.unlocks + 1 }
          exact h
        · refine (ih none hrest _).bind ?_
          rintro results w' ⟨hfs, hlog, hall⟩
          refine ⟨hfs, hlog, .cons ?_ hall⟩
          rintro plain' ⟨⟩
          exact ⟨stream, hparsed (p, .ok stream) List.mem_cons_self stream rfl, hplain plain rfl⟩
      · rw [decryptAll]
        exact hnone _ (some reason) w

/-- Decrypting the pending entries leaves the tree alone and gives plaintexts of them. -/
theorem decryptPending_spec (pending : List Pending) (w : World) :
    Prog.Ensures (World.Step ssl) (decryptPending ssl pending)
      (fun results w' => w'.fs = w.fs ∧ w'.log = w.log ∧
        List.Forall₂ (Plain ssl) pending results) w := by
  have hparsed : ∀ x ∈ pending.map parsePending, Parses x := by
    intro x hx
    obtain ⟨p, -, rfl⟩ := List.mem_map.mp hx
    exact parses_parsePending p
  have hpending : (pending.map parsePending).map (·.1) = pending := by
    rw [List.map_map]
    conv_rhs => rw [← List.map_id pending]
    refine List.map_congr_left fun p _ => ?_
    simp only [Function.comp, parsePending]
    rcases EboxStream.fromBytes p.bytes with e | stream <;> rfl
  have hfail : ∀ message, List.Forall₂ (Plain ssl) pending
      (failAll message (pending.map parsePending)) := by
    intro message
    have h := failAll_plain ssl message (pending.map parsePending)
    rwa [hpending] at h
  rw [decryptPending]
  dsimp only
  split
  · exact ⟨rfl, rfl, hfail _⟩
  · next first _ _ =>
    rcases primaryPartTargets ssl first with diag | targets
    · exact ⟨rfl, rfl, hfail _⟩
    · simp only [Prog.op_bind, Prog.ensures_call]
      rintro (reason | ⟨⟩) w₁ rfl
      · exact ⟨rfl, rfl, hfail _⟩
      · refine (decryptAll_spec ssl none _ hparsed _).bind ?_
        rintro results w₂ ⟨hfs, hlog, hall⟩
        rw [hpending] at hall
        rw [Prog.ensures_call]
        rintro answer w₃ rfl
        exact ⟨hfs, hlog, hall⟩

/-! ## Saving -/

/-- Saving the state if it has changed. -/
theorem saveChanged_spec (libs : Libs) (pid : UInt32) (path : Path) (state : State) (changed : Bool)
    (w : World) :
    Prog.Ensures (World.Step ssl) (saveChanged libs pid path state changed)
      (fun exit w' => w'.unlocks = w.unlocks ∧
        (changed = false ∧ w' = w ∨ changed = true ∧ exit = 1 ∧ w' = w ∨
          changed = true ∧ ∃ parent fileName r, Writable path parent fileName ∧
            Wrote w.fs parent path (tmpOf pid path) (strBytes (libs.stateToJson state ++ "\n")) 0o600
              r w'.fs ∧ (exit = 0 → ∃ fp, r = .ok fp))) w := by
  cases changed with
  | false => exact ⟨rfl, .inl ⟨rfl, rfl⟩⟩
  | true =>
    have hsave : Prog.Ensures (World.Step ssl) (saveState libs pid path state)
        (fun r w' => w'.unlocks = w.unlocks ∧
          ((w' = w ∧ ∃ e, r = .error e) ∨ ∃ parent fileName r', Writable path parent fileName ∧
            Wrote w.fs parent path (tmpOf pid path) (strBytes (libs.stateToJson state ++ "\n")) 0o600
              r' w'.fs ∧ (r = .ok () → ∃ fp, r' = .ok fp))) w := by
      refine (writeAtomically_spec ssl pid path _ _ w).bind ?_
      rintro (e | fp) w' ⟨hunlocks, ⟨rfl, e', he⟩ | ⟨parent, fileName, hwritable, hwrote⟩⟩
      · exact ⟨rfl, .inl ⟨rfl, e, rfl⟩⟩
      · exact ⟨hunlocks, .inr ⟨parent, fileName, _, hwritable, hwrote, fun h => nomatch h⟩⟩
      · cases he
      · exact ⟨hunlocks, .inr ⟨parent, fileName, _, hwritable, hwrote, fun _ => ⟨fp, rfl⟩⟩⟩
    refine hsave.bind ?_
    rintro (e | ⟨⟩) w' ⟨hunlocks, ⟨rfl, e', he⟩ | ⟨parent, fileName, r, hwritable, hwrote, hok⟩⟩
    · exact ⟨rfl, .inr (.inl ⟨rfl, rfl, rfl⟩)⟩
    · exact ⟨hunlocks, .inr (.inr ⟨rfl, parent, fileName, r, hwritable, hwrote,
        fun h => nomatch h⟩)⟩
    · cases he
    · exact ⟨hunlocks, .inr (.inr ⟨rfl, parent, fileName, r, hwritable, hwrote, fun _ => hok rfl⟩)⟩

end Piggy.Secrets
