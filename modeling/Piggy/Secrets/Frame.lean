import Piggy.Secrets.Converge

/-!
# What a reconcile leaves alone

Whatever a run fails at, what was in the tree stays there. Only the targets that the run owns and
its state file are replaced, and by whole files; where nothing was, directories and a temporary file
may be left.
-/

namespace Piggy.Secrets

open Piggy.Core Piggy.Box Piggy.Store Piggy.Batch

/-! ## Several files -/

/-- A file that was put in its place. -/
structure Placed where
  path : Path
  contents : Bytes
  mode : UInt32

/-- The paths that writing a file works with. -/
def pathsOf (pid : UInt32) (path : Path) : List Path :=
  path :: tmpOf pid path :: (directoryOf path).toList

/-- What writing some files may leave where nothing was: a directory on the way to one of them, or
its temporary file. -/
inductive Fresh (pid : UInt32) (paths : List Path) (w : Fs) (l : Loc) : Option Node → Prop where
  | dir {path parent : Path} (hpath : path ∈ paths) (hparent : directoryOf path = some parent)
      (hway : l <+: w.entry parent ∨ l <+: w.link parent) : Fresh pid paths w l (some .dir)
  | tmp {path : Path} (hpath : path ∈ paths) (hplace : l = w.entry (tmpOf pid path)) (data : Bytes)
      (stamp : Fingerprint) : Fresh pid paths w l (some (.file data stamp))

/-- A node is a file that was put in place. -/
def Placed.Is (f : Placed) (node : Option Node) : Prop :=
  ∃ stamp, node = some (.file f.contents stamp) ∧ stamp.mode = f.mode

/-- The tree after writing some files, whatever failed. -/
structure Written (pid : UInt32) (paths : List Path) (placed : List Placed) (w w' : Fs) : Prop where
  ways : ∀ p ∈ paths.flatMap (pathsOf pid), Fs.SameWay w w' p
  links : ∀ l stamp, w'.nodes l = some (.other stamp) → w.nodes l = some (.other stamp)
  nodes : ∀ l, w'.nodes l = w.nodes l ∨ w.nodes l = none ∧ Fresh pid paths w l (w'.nodes l) ∨
    ∃ f ∈ placed, l = w.entry f.path ∧ f.Is (w'.nodes l)

variable {pid : UInt32} {paths : List Path} {placed : List Placed} {w w₁ w₂ : Fs}

theorem Written.refl (pid : UInt32) (paths : List Path) (w : Fs) : Written pid paths [] w w :=
  ⟨fun p _ => Fs.SameWay.refl w p, fun _ _ h => h, fun _ => .inl rfl⟩

theorem Fresh.ne_none {l : Loc} {node : Option Node} (h : Fresh pid paths w l node) : node ≠ none := by
  rintro rfl
  cases h

theorem Placed.Is.ne_none {f : Placed} {node : Option Node} (h : f.Is node) : node ≠ none := by
  rintro rfl
  obtain ⟨stamp, hnode, -⟩ := h
  cases hnode

theorem mem_pathsOf {path : Path} (hpath : path ∈ paths) {p : Path} (hp : p ∈ pathsOf pid path) :
    p ∈ paths.flatMap (pathsOf pid) := List.mem_flatMap.mpr ⟨path, hpath, hp⟩

/-- One write, place by place. -/
theorem Wrote.places {parent path : Path} {contents : Bytes} {mode : UInt32}
    {r : Except String Fingerprint} (hparent : directoryOf path = some parent)
    (h : Wrote w parent path (tmpOf pid path) contents mode r w₁) (l : Loc) :
    w₁.nodes l = w.nodes l ∨ w.nodes l = none ∧ Fresh pid [path] w l (w₁.nodes l) ∨
      l = w.entry path ∧ Placed.Is ⟨path, contents, mode⟩ (w₁.nodes l) := by
  -- What making the directories does at a place.
  have hmade : ∀ {v : Fs}, Fs.MakesDirs w v (w.target parent) →
      v.nodes l = w.nodes l ∨ w.nodes l = none ∧ Fresh pid [path] w l (v.nodes l) := by
    intro v hdirs
    rcases hdirs.nodes l with hsame | ⟨hnone, hway, hdir⟩
    · exact .inl hsame
    · refine .inr ⟨hnone, ?_⟩
      rw [hdir]
      refine .dir (List.mem_singleton_self path) hparent ?_
      rw [Fs.target] at hway
      split at hway
      · exact .inr hway
      · exact .inl hway
  cases h with
  | refused e hdirs =>
    rcases hmade hdirs with hsame | hfresh
    · exact .inl hsame
    · exact .inr (.inl hfresh)
  | @left v e data stamp hdirs habsent =>
    by_cases hplace : l = v.entry (tmpOf pid path)
    · subst hplace
      have hnone : w.nodes (v.entry (tmpOf pid path)) = none := by
        rcases hdirs.nodes (v.entry (tmpOf pid path)) with hsame | ⟨hnone, -⟩
        · exact hsame.symm.trans habsent
        · exact hnone
      refine .inr (.inl ⟨hnone, ?_⟩)
      rw [show (v.set (v.entry (tmpOf pid path)) (some (.file data stamp))).nodes
        (v.entry (tmpOf pid path)) = some (.file data stamp) from Function.update_self _ _ _]
      exact .tmp (List.mem_singleton_self path) (hdirs.ways _).entry data stamp
    · rw [show (v.set (v.entry (tmpOf pid path)) (some (.file data stamp))).nodes l = v.nodes l from
        Function.update_of_ne hplace _ _]
      rcases hmade hdirs with hsame | hfresh
      · exact .inl hsame
      · exact .inr (.inl hfresh)
  | @replaced v v' r stamp hdirs hmode hnotdir hreplaces hr =>
    rw [hreplaces.nodes, (hdirs.ways path).entry]
    by_cases hplace : l = w.entry path
    · subst hplace
      exact .inr (.inr ⟨rfl, stamp, Function.update_self _ _ _, hmode⟩)
    · rw [Function.update_of_ne hplace]
      rcases hmade hdirs with hsame | hfresh
      · exact .inl hsame
      · exact .inr (.inl hfresh)

/-- What is fresh after one of the writes is fresh after all of them. -/
theorem Fresh.of_written (h : Written pid paths placed w w₁) {path : Path} (hpath : path ∈ paths) {l : Loc}
    {node : Option Node} (hfresh : Fresh pid [path] w₁ l node) : Fresh pid paths w l node := by
  cases hfresh with
  | @dir path' parent hpath' hparent hway =>
    obtain rfl := List.mem_singleton.mp hpath'
    have hsame := h.ways parent (mem_pathsOf hpath (by rw [pathsOf, hparent]; simp))
    rw [hsame.entry, hsame.link] at hway
    exact .dir hpath hparent hway
  | @tmp path' hpath' hplace data stamp =>
    obtain rfl := List.mem_singleton.mp hpath'
    have hsame := h.ways (tmpOf pid path') (mem_pathsOf hpath (by simp [pathsOf]))
    exact .tmp hpath (hplace.trans hsame.entry) data stamp

/-- One more write. -/
theorem Written.step (h : Written pid paths placed w w₁)
    (hlinks : Unlinked (paths.flatMap (pathsOf pid)) w paths) {parent path : Path} (hpath : path ∈ paths)
    (hparent : directoryOf path = some parent) {contents : Bytes} {mode : UInt32}
    {r : Except String Fingerprint} (hwrote : Wrote w₁ parent path (tmpOf pid path) contents mode r w₂) :
    Written pid paths (⟨path, contents, mode⟩ :: placed) w w₂ := by
  have hself : path ∈ paths.flatMap (pathsOf pid) := mem_pathsOf hpath List.mem_cons_self
  have hentry : w₁.entry path = w.entry path := (h.ways path hself).entry
  refine ⟨?_, fun l stamp hl => h.links l stamp (hwrote.kept.links l stamp hl), ?_⟩
  · intro p hp
    refine (h.ways p hp).trans (hwrote.kept.ways p ?_)
    rintro ⟨hthrough, stamp, hstamp⟩
    rw [hentry] at hthrough hstamp
    exact hlinks path hpath p hp ⟨(h.ways p hp).through ▸ hthrough, stamp, h.links _ stamp hstamp⟩
  · intro l
    have hnew : l = w₁.entry path → Placed.Is ⟨path, contents, mode⟩ (w₂.nodes l) →
        ∃ f ∈ (⟨path, contents, mode⟩ : Placed) :: placed, l = w.entry f.path ∧ f.Is (w₂.nodes l) :=
      fun hplace hnode => ⟨_, List.mem_cons_self, hplace.trans hentry, hnode⟩
    rcases h.nodes l with hsame | ⟨hnone, hfresh⟩ | ⟨f, hf, hplace, hnode⟩
    · rcases hwrote.places hparent l with hkept | ⟨hnone, hfresh⟩ | ⟨hplace, hnode⟩
      · exact .inl (hkept.trans hsame)
      · exact .inr (.inl ⟨hsame.symm.trans hnone, hfresh.of_written h hpath⟩)
      · exact .inr (.inr (hnew hplace hnode))
    · rcases hwrote.places hparent l with hkept | ⟨hnone', -⟩ | ⟨hplace, hnode⟩
      · exact .inr (.inl ⟨hnone, hkept ▸ hfresh⟩)
      · exact absurd hnone' hfresh.ne_none
      · exact .inr (.inr (hnew hplace hnode))
    · rcases hwrote.places hparent l with hkept | ⟨hnone', -⟩ | ⟨hplace', hnode'⟩
      · exact .inr (.inr ⟨f, List.mem_cons_of_mem _ hf, hplace, hkept ▸ hnode⟩)
      · exact absurd hnone' hnode.ne_none
      · exact .inr (.inr (hnew hplace' hnode'))

/-! ## Writing what was decrypted -/

/-- The state after writing some items: a record is new where its item was written, and the others
are the old ones. -/
def Recorded (items : List Pending) (state : State) (r : List Outcome × State) : Prop :=
  r.1.length = items.length ∧ ∀ q, r.2.get q = state.get q ∨
    ∃ (i : Nat) (p : Pending) (reason : WriteReason) (fp : Fingerprint), items[i]? = some p ∧
      r.1[i]? = some (.wrote reason) ∧ p.entry.target.components = q.components ∧
        r.2.get q = some (recordOf p fp)

/-- One more item in front. -/
theorem Recorded.cons {items : List Pending} {state state' : State} {r : List Outcome × State}
    (h : Recorded items state' r) (p : Pending) (outcome : Outcome)
    (hstate : ∀ q, state'.get q = state.get q ∨ ∃ reason fp, outcome = .wrote reason ∧
      p.entry.target.components = q.components ∧ state'.get q = some (recordOf p fp)) :
    Recorded (p :: items) state (outcome :: r.1, r.2) := by
  refine ⟨congrArg (· + 1) h.1, fun q => ?_⟩
  rcases h.2 q with hsame | ⟨i, p', reason, fp, hp', houtcome, hkey, hget⟩
  · rcases hstate q with hold | ⟨reason, fp, rfl, hkey, hnew⟩
    · exact .inl (hsame.trans hold)
    · exact .inr ⟨0, p, reason, fp, rfl, rfl, hkey, hsame.trans hnew⟩
  · exact .inr ⟨i + 1, p', reason, fp, hp', houtcome, hkey, hget⟩

variable {Scalar Point Rng : Type} (ssl : OpenSsl Scalar Point Rng)

/-- A file that an item stands for: its decrypted contents under its target. -/
def StandsFor (f : Placed) (x : Pending × Except String Bytes) : Prop :=
  x.2 = .ok f.contents ∧ f.path = x.1.entry.target ∧ f.mode = x.1.entry.mode

theorem writeResults_written (hlinks : Unlinked (paths.flatMap (pathsOf pid)) w paths)
    (items : List (Pending × Except String Bytes)) (hitems : ∀ x ∈ items, targetOf x ∈ paths)
    (state : State) (placed : List Placed) (v : World) (hv : Written pid paths placed w v.fs) :
    Prog.Ensures (World.Step ssl) (writeResults pid items state)
      (fun r v' => Recorded (items.map (·.1)) state r ∧ ∃ more, Written pid paths (more ++ placed) w v'.fs ∧
        ∀ f ∈ more, ∃ x ∈ items, StandsFor f x) v := by
  induction items generalizing state placed v with
  | nil =>
    rw [writeResults]
    refine ⟨⟨rfl, fun q => .inl rfl⟩, [], hv, ?_⟩
    intro f hf
    cases hf
  | cons x items ih =>
    obtain ⟨hx, hitems⟩ := List.forall_mem_cons.mp hitems
    -- The others are written from wherever the first one has led to.
    have hrest : ∀ (outcome : Outcome) (state' : State) (here : List Placed) (v₁ : World),
        Written pid paths (here ++ placed) w v₁.fs → (∀ f ∈ here, StandsFor f x) →
        (∀ q, state'.get q = state.get q ∨ ∃ reason fp, outcome = .wrote reason ∧
          x.1.entry.target.components = q.components ∧ state'.get q = some (recordOf x.1 fp)) →
        Prog.Ensures (World.Step ssl) (writeResults pid items state' >>= fun r =>
            pure (outcome :: r.1, r.2))
          (fun r v' => Recorded (x.1 :: items.map (·.1)) state r ∧
            ∃ more, Written pid paths (more ++ placed) w v'.fs ∧
              ∀ f ∈ more, ∃ y ∈ x :: items, StandsFor f y) v₁ := by
      intro outcome state' here v₁ hv₁ hhere hstate
      refine (ih hitems state' (here ++ placed) v₁ hv₁).bind ?_
      rintro r v₂ ⟨hrecorded, more, hv₂, hmore⟩
      refine ⟨hrecorded.cons x.1 outcome hstate, more ++ here, by rw [List.append_assoc]; exact hv₂, ?_⟩
      intro f hf
      rcases List.mem_append.mp hf with hf | hf
      · obtain ⟨y, hy, hfy⟩ := hmore f hf
        exact ⟨y, List.mem_cons_of_mem _ hy, hfy⟩
      · exact ⟨x, List.mem_cons_self, hhere f hf⟩
    obtain ⟨p, e | plain⟩ := x
    · rw [writeResults]
      exact hrest (.failed e) state [] v hv (fun f hf => by cases hf) fun q => .inl rfl
    · rw [writeResults]
      refine (writeAtomically_spec ssl pid p.entry.target plain p.entry.mode v).bind ?_
      rintro r v₁ ⟨-, hwrote⟩
      have hone : ∃ here, Written pid paths (here ++ placed) w v₁.fs ∧
          ∀ f ∈ here, StandsFor f (p, .ok plain) := by
        rcases hwrote with ⟨rfl, -⟩ | ⟨parent, fileName, hwritable, hwrote⟩
        · exact ⟨[], hv, fun f hf => by cases hf⟩
        · refine ⟨[⟨p.entry.target, plain, p.entry.mode⟩], hv.step hlinks hx hwritable.1 hwrote, ?_⟩
          intro f hf
          obtain rfl := List.mem_singleton.mp hf
          exact ⟨rfl, rfl, rfl⟩
      obtain ⟨here, hv₁, hhere⟩ := hone
      rcases r with e | fp
      · exact hrest (.failed e) state here v₁ hv₁ hhere fun q => .inl rfl
      · refine hrest (.wrote p.reason) _ here v₁ hv₁ hhere fun q => ?_
        rw [State.get_insert]
        split
        · next hkey => exact .inr ⟨p.reason, fp, rfl, hkey.symm, rfl⟩
        · exact .inl rfl

/-- A file that a pending entry stands for: a plaintext of its ebox. -/
def IsPlaintext (f : Placed) (p : Pending) : Prop :=
  f.path = p.entry.target ∧ f.mode = p.entry.mode ∧
    ∃ stream, EboxStream.fromBytes p.bytes = .ok stream ∧ Decrypts ssl stream p.bytes f.contents

theorem writePending_written (hlinks : Unlinked (paths.flatMap (pathsOf pid)) w paths)
    (pending : List Pending) (hpending : ∀ p ∈ pending, p.entry.target ∈ paths) (state : State) (v : World)
    (hv : v.fs = w) :
    Prog.Ensures (World.Step ssl) (writePending ssl pid pending state)
      (fun r v' => (pending = [] → v' = v ∧ r = ([], state)) ∧ Recorded pending state r ∧
        ∃ placed, Written pid paths placed w v'.fs ∧ ∀ f ∈ placed, ∃ p ∈ pending, IsPlaintext ssl f p) v := by
  rw [writePending]
  split
  · next hempty =>
    obtain rfl := List.isEmpty_iff.mp hempty
    refine ⟨fun _ => ⟨rfl, rfl⟩, ⟨rfl, fun q => .inl rfl⟩, [], hv ▸ Written.refl pid paths v.fs, ?_⟩
    intro f hf
    cases hf
  · next hsome =>
    refine (decryptPending_spec ssl pending v).bind ?_
    rintro results v₁ ⟨hfs, -, hplain⟩
    have hsome : pending ≠ [] := fun hnil => hsome (List.isEmpty_iff.mpr hnil)
    have hzip : (pending.zip results).map (·.1) = pending := List.map_fst_zip hplain.length_eq.le
    have hmem : ∀ x ∈ pending.zip results, x.1 ∈ pending ∧ Plain ssl x.1 x.2 := by
      intro x hx
      exact ⟨(List.of_mem_zip hx).1, (List.forall₂_iff_zip.mp hplain).2 hx⟩
    have hstart : Written pid paths [] w v₁.fs := by
      rw [hfs, hv]
      exact Written.refl pid paths w
    refine (writeResults_written ssl hlinks (pending.zip results) (fun x hx => hpending _ (hmem x hx).1)
      state [] v₁ hstart).mono ?_
    rintro r v₂ ⟨hrecorded, placed, hv₂, hplaced⟩
    rw [hzip] at hrecorded
    rw [List.append_nil] at hv₂
    refine ⟨fun hnil => absurd hnil hsome, hrecorded, placed, hv₂, ?_⟩
    intro f hf
    obtain ⟨x, hx, hcontents, hpath, hmode⟩ := hplaced f hf
    exact ⟨x.1, (hmem x hx).1, hpath, hmode, (hmem x hx).2 _ hcontents⟩

/-! ## The run -/

/-- The outcome of a pending entry is the one of its write. -/
theorem outcome_of_pending {libs : Libs} {args : ReconcileArgs} {state : State} {fs : Fs}
    {entries : List Entry} {plans : List (Outcome ⊕ Pending)} {outcomes : List Outcome}
    (h : List.Forall₂ (Examined libs args state fs) entries plans) {j : Nat} {p : Pending}
    {outcome : Outcome} (hp : (plans.filterMap Sum.getRight?)[j]? = some p)
    (houtcome : outcomes[j]? = some outcome) :
    ∃ i : Nat, entries[i]? = some p.entry ∧ (fillOutcomes plans outcomes)[i]? = some outcome := by
  induction h generalizing j outcomes with
  | nil => cases hp
  | @cons e plan entries plans hplan _ ih =>
    rcases plan with settled | first
    · obtain ⟨i, hi, hfill⟩ := ih hp houtcome
      exact ⟨i + 1, hi, hfill⟩
    · rcases outcomes with _ | ⟨outcome', outcomes⟩
      · cases houtcome
      · rcases j with _ | j
        · obtain rfl : first = p := Option.some.inj hp
          obtain rfl : outcome' = outcome := Option.some.inj houtcome
          have hentry : first.entry = e := by
            cases hplan
            assumption
          exact ⟨0, by rw [hentry]; rfl, rfl⟩
        · obtain ⟨i, hi, hfill⟩ := ih (j := j) hp houtcome
          exact ⟨i + 1, hi, hfill⟩

/-- A node is the state file with the records of a state. -/
def SavedAs (libs : Libs) (state : State) (node : Option Node) : Prop :=
  Placed.Is ⟨⟨""⟩, strBytes (libs.stateToJson state ++ "\n"), 0o600⟩ node

/-- A node is a plaintext of the ebox of an entry, with its mode. -/
def HoldsPlain (fs : Fs) (e : Entry) (node : Option Node) : Prop :=
  ∃ bytes stream plain, (∃ stamp, fs.nodes (fs.target e.ebox) = some (.file bytes stamp)) ∧
    EboxStream.fromBytes bytes = .ok stream ∧ Decrypts ssl stream bytes plain ∧
    Placed.Is ⟨e.target, plain, e.mode⟩ node

/-- A path that no entry declares. -/
def Undeclared (entries : List Entry) (q : Path) : Prop :=
  ∀ e ∈ entries, e.target.components ≠ q.components

/-- What a run with some records leaves of the tree and the records. -/
structure SettledFrame (libs : Libs) (pid : UInt32) (args : ReconcileArgs) (statePath : Path)
    (entries : List Entry) (state : State) (s : Settled) (w w' : Fs) : Prop where
  /-- A place is as it was, or was empty and is a directory or a temporary file, or is an owned target
  with a plaintext, or is the state file. -/
  nodes : ∀ l, w'.nodes l = w.nodes l ∨
    w.nodes l = none ∧ Fresh pid (statePath :: entries.map Entry.target) w l (w'.nodes l) ∨
    (∃ e ∈ entries, Owned args state w e ∧ l = w.entry e.target ∧ HoldsPlain ssl w e (w'.nodes l)) ∨
    l = w.entry statePath ∧ SavedAs libs s.state (w'.nodes l)
  /-- A record is the one of an entry that was written; otherwise it is as it was, and released when
  nothing declares it. -/
  records : ∀ q, (∃ (i : Nat) (e : Entry) (reason : WriteReason) (fp : Fingerprint) (bytes : Bytes),
      entries[i]? = some e ∧ s.outcomes[i]? = some (.wrote reason) ∧ e.target.components = q.components ∧
      (∃ stamp, w.nodes (w.target e.ebox) = some (.file bytes stamp)) ∧
      s.state.get q = some ⟨e.name, libs.sha256 bytes, fp⟩) ∨
    s.state.get q = state.get q ∧ (args.check = true ∨ ¬ Undeclared entries q ∨ state.get q = none) ∨
    s.state.get q = none ∧ args.check = false ∧ Undeclared entries q

/-- What a run leaves alone. -/
structure ReconcileFrame (libs : Libs) (pid : UInt32) (args : ReconcileArgs) (statePath : Path)
    (entries : List Entry) (w w' : Fs) (r : Except Nat Settled) : Prop where
  /-- Nothing is changed when the state file cannot be read, and none under `--check`. -/
  stopped : ∀ code, r = .error code → w' = w
  check : args.check = true → w' = w
  settled : ∀ s, r = .ok s → ∃ state, StateIs libs w statePath state ∧
    SettledFrame ssl libs pid args statePath entries state s w w'

/-- The record of an orphan is released, and no other. -/
theorem get_releaseOrphans (args : ReconcileArgs) (entries : List Entry) (state after : State) (q : Path) :
    (releaseOrphans args (orphansOf state entries) after).get q = after.get q ∧
      (args.check = true ∨ ¬ Undeclared entries q ∨ state.get q = none) ∨
    (releaseOrphans args (orphansOf state entries) after).get q = none ∧ args.check = false ∧
      Undeclared entries q := by
  rw [releaseOrphans]
  cases hcheck : args.check with
  | true => exact .inl ⟨rfl, .inl rfl⟩
  | false =>
    rw [if_neg Bool.false_ne_true, State.get_foldl_remove]
    by_cases hdeclared : Undeclared entries q
    · rcases hget : state.get q with _ | record
      · split
        · exact .inr ⟨rfl, rfl, hdeclared⟩
        · exact .inl ⟨rfl, .inr (.inr rfl)⟩
      · rw [if_pos (exists_orphan hget hdeclared)]
        exact .inr ⟨rfl, rfl, hdeclared⟩
    · refine .inl ⟨if_neg ?_, .inr (.inl hdeclared)⟩
      rintro ⟨p, hp, hkey⟩
      refine hdeclared fun e he heq => ?_
      exact not_orphan he ⟨p, hp, hkey.trans heq.symm⟩

section

variable {ssl} {libs : Libs} {args : ReconcileArgs} {entries : List Entry} {state : State} {fs : Fs}
  {plans : List (Outcome ⊕ Pending)}

/-- What stands for a pending entry was owned, and holds a plaintext of its ebox. -/
theorem IsPlaintext.owned (hplans : List.Forall₂ (Examined libs args state fs) entries plans)
    {f : Placed} {p : Pending} (hp : p ∈ plans.filterMap Sum.getRight?) (h : IsPlaintext ssl f p)
    {node : Option Node} (hnode : f.Is node) :
    ∃ e ∈ entries, Owned args state fs e ∧ f.path = e.target ∧ HoldsPlain ssl fs e node := by
  obtain ⟨stamp, hnode, hmode⟩ := hnode
  obtain ⟨hpath, hfmode, stream, hstream, hdecrypts⟩ := h
  obtain ⟨hentry, hexamined⟩ := examined_of_mem_pending hplans hp
  cases hexamined with
  | pending _ _ _ hebox _ hown =>
    exact ⟨p.entry, hentry, hown, hpath, p.bytes, stream, f.contents, hebox, hstream, hdecrypts, stamp,
      hnode, hmode.trans hfmode⟩

/-- A record behind the writes is the one of an entry that was written, or the one before them. -/
theorem Recorded.of_examined (hplans : List.Forall₂ (Examined libs args state fs) entries plans)
    {outcomes : List Outcome} {after : State}
    (h : Recorded (plans.filterMap Sum.getRight?) state (outcomes, after)) (q : Path) :
    (∃ (i : Nat) (e : Entry) (reason : WriteReason) (fp : Fingerprint) (bytes : Bytes),
      entries[i]? = some e ∧ (fillOutcomes plans outcomes)[i]? = some (.wrote reason) ∧
      e.target.components = q.components ∧
      (∃ stamp, fs.nodes (fs.target e.ebox) = some (.file bytes stamp)) ∧
      after.get q = some ⟨e.name, libs.sha256 bytes, fp⟩) ∨ after.get q = state.get q := by
  rcases h.2 q with hsame | ⟨j, p, reason, fp, hp, houtcome, hkey, hget⟩
  · exact .inr hsame
  · obtain ⟨i, hi, hfill⟩ := outcome_of_pending hplans hp houtcome
    obtain ⟨-, hexamined⟩ := examined_of_mem_pending hplans (List.mem_of_getElem? hp)
    cases hexamined with
    | pending _ _ hsha hebox _ _ =>
      refine .inl ⟨i, p.entry, reason, fp, p.bytes, hi, hfill, hkey, hebox, ?_⟩
      rw [hget, recordOf, hsha]

/-- The frame of a run, from the files that it put in place and the records behind its writes. -/
theorem Written.settledFrame {statePath : Path} {outcomes : List Outcome} {after : State} {exit : Nat}
    (saved : List Placed) {placed : List Placed} {fs' : Fs}
    (hplans : List.Forall₂ (Examined libs args state fs) entries plans)
    (hrecorded : Recorded (plans.filterMap Sum.getRight?) state (outcomes, after))
    (hplaced : ∀ f ∈ placed, ∃ p ∈ plans.filterMap Sum.getRight?, IsPlaintext ssl f p)
    (hsaved : ∀ f ∈ saved, f.path = statePath ∧ ∀ node, f.Is node →
      SavedAs libs (releaseOrphans args (orphansOf state entries) after) node)
    (h : Written pid (statePath :: entries.map Entry.target) (saved ++ placed) fs fs') :
    SettledFrame ssl libs pid args statePath entries state
      ⟨fillOutcomes plans outcomes, orphansOf state entries,
        releaseOrphans args (orphansOf state entries) after, exit⟩ fs fs' := by
  refine ⟨?_, ?_⟩
  · intro l
    rcases h.nodes l with hsame | hfresh | ⟨f, hf, hplace, hnode⟩
    · exact .inl hsame
    · exact .inr (.inl hfresh)
    · rcases List.mem_append.mp hf with hf | hf
      · obtain ⟨hpath, hfile⟩ := hsaved f hf
        exact .inr (.inr (.inr ⟨by rw [← hpath]; exact hplace, hfile _ hnode⟩))
      · obtain ⟨p, hp, hplain⟩ := hplaced f hf
        obtain ⟨e, he, hown, hpath, hholds⟩ := hplain.owned hplans hp hnode
        exact .inr (.inr (.inl ⟨e, he, hown, by rw [← hpath]; exact hplace, hholds⟩))
  · intro q
    rcases get_releaseOrphans args entries state after q with ⟨hkept, hwhy⟩ | hgone
    · rcases hrecorded.of_examined hplans q with
        ⟨i, e, reason, fp, bytes, hi, hfill, hkey, hebox, hget⟩ | hsame
      · exact .inl ⟨i, e, reason, fp, bytes, hi, hfill, hkey, hebox, hkept.trans hget⟩
      · exact .inr (.inl ⟨hkept.trans hsame, hwhy⟩)
    · exact .inr (.inr hgone)

end

theorem settle_frame {libs : Libs} {args : ReconcileArgs} {statePath : Path} {entries : List Entry}
    {state : State} {plans : List (Outcome ⊕ Pending)} (v : World)
    (hlinks : Unlinked ((statePath :: entries.map Entry.target).flatMap (pathsOf pid)) v.fs
      (statePath :: entries.map Entry.target))
    (hplans : List.Forall₂ (Examined libs args state v.fs) entries plans) :
    Prog.Ensures (World.Step ssl) (settle ssl libs pid args statePath entries state plans)
      (fun s v' => (args.check = true → v'.fs = v.fs) ∧
        SettledFrame ssl libs pid args statePath entries state s v.fs v'.fs) v := by
  have hpending : ∀ p ∈ plans.filterMap Sum.getRight?,
      p.entry.target ∈ statePath :: entries.map Entry.target :=
    fun p hp => List.mem_cons_of_mem _ (List.mem_map_of_mem (examined_of_mem_pending hplans hp).1)
  rw [settle]
  refine (writePending_written ssl hlinks _ hpending state v rfl).bind ?_
  rintro ⟨outcomes, after⟩ v₁ ⟨hnothing, hrecorded, placed, hwritten, hplaced⟩
  have hcheck : args.check = true → v₁ = v ∧ outcomes = [] := by
    intro hcheck
    obtain ⟨rfl, hr⟩ := hnothing (pending_eq_nil hcheck hplans)
    exact ⟨rfl, congrArg Prod.fst hr⟩
  refine (saveChanged_spec ssl libs pid statePath _ _ v₁).bind ?_
  rintro exit v₂ ⟨-, ⟨-, rfl⟩ | ⟨-, -, rfl⟩ | ⟨hchanged, parent, fileName, r, hwritable, hwrote, -⟩⟩
  · refine ⟨fun h => by rw [(hcheck h).1], Written.settledFrame [] hplans hrecorded hplaced ?_ hwritten⟩
    intro f hf
    cases hf
  · refine ⟨fun h => by rw [(hcheck h).1], Written.settledFrame [] hplans hrecorded hplaced ?_ hwritten⟩
    intro f hf
    cases hf
  · have hsaved := hwritten.step hlinks List.mem_cons_self hwritable.1 hwrote
    refine ⟨?_, Written.settledFrame [_] hplans hrecorded hplaced ?_ hsaved⟩
    · intro h
      rw [(hcheck h).2, h] at hchanged
      cases hchanged
    · intro f hf
      obtain rfl := List.mem_singleton.mp hf
      exact ⟨rfl, fun node hnode => hnode⟩

theorem reconcileEntries_frame (libs : Libs) (pid : UInt32) (args : ReconcileArgs) (statePath : Path)
    (entries : List Entry) (v : World)
    (hlinks : Unlinked ((statePath :: entries.map Entry.target).flatMap (pathsOf pid)) v.fs
      (statePath :: entries.map Entry.target)) :
    Prog.Ensures (World.Step ssl) (reconcileEntries ssl libs pid args statePath entries)
      (fun r v' => ReconcileFrame ssl libs pid args statePath entries v.fs v'.fs r) v := by
  rw [reconcileEntries]
  refine (loadState_spec ssl libs statePath v).bind ?_
  rintro (e | state) v₁ ⟨rfl, hstate⟩
  · refine ⟨fun _ _ => rfl, fun _ => rfl, ?_⟩
    intro s h
    cases h
  · refine (examineAll_spec ssl libs args state entries v₁).bind ?_
    rintro plans v₂ ⟨rfl, hplans⟩
    refine (settle_frame ssl v₂ hlinks hplans).bind ?_
    rintro s v₃ ⟨hcheck, hframe⟩
    refine ⟨(fun code h => by cases h), hcheck, ?_⟩
    rintro s' ⟨⟩
    exact ⟨state, hstate state rfl, hframe⟩

/-- In every run, whatever fails, a place of the tree that had something is as it was, or holds a
plaintext under a target that the run owned, or is the state file; nothing is taken away. A run under
`--check`, or whose state file cannot be read, changes nothing. -/
theorem reconcile_frame {libs : Libs} {pid : UInt32} {args : ReconcileArgs} {statePath : Path}
    {entries : List Entry} {w w' : World} {code : Nat}
    (hlinks : Unlinked ((statePath :: entries.map Entry.target).flatMap (pathsOf pid)) w.fs
      (statePath :: entries.map Entry.target))
    (hrun : Prog.Exec (World.Step ssl) (reconcile ssl libs pid args statePath entries) w code w') :
    (∃ r, ReconcileFrame ssl libs pid args statePath entries w.fs w'.fs r ∧
      (code = 1 ∨ r = .error code ∨ ∃ s, r = .ok s ∧ code = exitCode args s.outcomes s.exit)) ∧
      ∀ l, w.fs.nodes l ≠ none → w'.fs.nodes l ≠ none := by
  have hensures : Prog.Ensures (World.Step ssl) (reconcile ssl libs pid args statePath entries)
      (fun code w' => ∃ r, ReconcileFrame ssl libs pid args statePath entries w.fs w'.fs r ∧
        (code = 1 ∨ r = .error code ∨ ∃ s, r = .ok s ∧ code = exitCode args s.outcomes s.exit)) w := by
    rw [reconcile]
    refine (reconcileEntries_frame ssl libs pid args statePath entries w hlinks).bind ?_
    rintro (code | s) w₁ hframe
    · exact ⟨_, hframe, .inr (.inl rfl)⟩
    · simp only [Prog.op_bind, Prog.ensures_call]
      rintro (e | ⟨⟩) w₂ rfl
      · exact ⟨_, hframe, .inl rfl⟩
      · exact ⟨_, hframe, .inr (.inr ⟨s, rfl, rfl⟩)⟩
  obtain ⟨r, hframe, hcode⟩ := Prog.ensures_iff.mp hensures code w' hrun
  refine ⟨⟨r, hframe, hcode⟩, fun l hl => ?_⟩
  rcases r with code | s
  · rw [hframe.stopped code rfl]
    exact hl
  · obtain ⟨state, -, hsettled⟩ := hframe.settled s rfl
    rcases hsettled.nodes l with hsame | ⟨hnone, -⟩ | ⟨e, -, -, -, bytes, stream, plain, -, -, -, hnode⟩ |
      ⟨-, hnode⟩
    · rw [hsame]
      exact hl
    · exact absurd hnone hl
    · exact hnode.ne_none
    · exact hnode.ne_none

/-- A run of the sample is a run. -/
theorem exec_of_sample {entries : List Entry} {w w' : World} {code : Nat}
    (h : Prog.Exec SampleStep (reconcile OpenSsl.sample sampleLibs 7 sampleReconcileArgs sampleStatePath
      entries) w code w') : Prog.Exec (World.Step OpenSsl.sample) (reconcile OpenSsl.sample sampleLibs 7
      sampleReconcileArgs sampleStatePath entries) w code w' :=
  h.mono fun _ _ _ _ hstep => hstep.1

/-- The sample writes its target and saves the state; the run behind it finds the target
recorded. -/
theorem reconcile_frame_sample :
    (∃ r, ReconcileFrame OpenSsl.sample sampleLibs 7 sampleReconcileArgs sampleStatePath
      [sampleEntry 0o600] (treeWithEbox sampleEboxBytes) (treeWithState sampleEboxBytes) r) ∧
    StateIs sampleLibs (treeWithState sampleEboxBytes) sampleStatePath sampleSaved ∧
    ∃ r, ReconcileFrame OpenSsl.sample sampleLibs 7 sampleReconcileArgs sampleStatePath
      [sampleEntry 0o644] (treeWithState sampleEboxBytes) (treeWithState sampleEboxBytes) r := by
  obtain ⟨w, hw, hfirst⟩ := sample_first
  have hsecond := exec_second sha256_sampleEbox w hw
  have hunlinked : ∀ fs : Fs, (∀ p l, ¬ fs.through p l) → ∀ watched paths, Unlinked watched fs paths :=
    fun fs h _ _ _ _ p _ hcarries => h p _ hcarries.1
  have hbefore := hunlinked (treeWithEbox sampleEboxBytes) fun _ _ h => h
  have hafter := hunlinked (treeWithState sampleEboxBytes) fun _ _ h => h
  obtain ⟨⟨r, hframe, -⟩, -⟩ :=
    reconcile_frame OpenSsl.sample (hbefore _ _) (exec_of_sample hfirst)
  obtain ⟨⟨r', hframe', -⟩, -⟩ :=
    reconcile_frame OpenSsl.sample (hw ▸ hafter _ _) (exec_of_sample hsecond)
  rw [hw] at hframe hframe'
  exact ⟨⟨r, hframe⟩, .inr ⟨_, _, rfl, sampleLibs_json sampleSaved, rfl⟩, r', hframe'⟩

end Piggy.Secrets
