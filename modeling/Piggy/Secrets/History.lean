import Piggy.Secrets.World
import Mathlib.Data.List.Pairwise
import Mathlib.Data.List.Forall2

/-!
# The history of a state file

The entries that are up to date were written by an earlier run; what is known of them is what
the state file says. So the state file has an invariant over the whole history: a recorded
fingerprint stands for a plaintext of an ebox with the recorded digest. Every run keeps it,
whatever it fails at.
-/

namespace Piggy.Secrets

open Piggy.Core Piggy.Box Piggy.Store Piggy.Batch

/-! ## Several writes -/

/-- No link at a place of some paths is on the way to a path that is watched. -/
def Unlinked (watched : List Path) (fs : Fs) (paths : List Path) : Prop :=
  ∀ q ∈ paths, ∀ p ∈ watched, ¬ fs.Carries (fs.entry q) p

/-- What is kept by writing some paths. -/
structure Between (watched : List Path) (w w' : Fs) (written : List Path) : Prop where
  ways : ∀ p ∈ watched, Fs.SameWay w w' p
  nodes : ∀ l, w.nodes l ≠ none → (∀ q ∈ written, l ≠ w.entry q) → w'.nodes l = w.nodes l
  links : ∀ l stamp, w'.nodes l = some (.other stamp) → w.nodes l = some (.other stamp)

/-- Nothing happens. -/
theorem Between.same (watched : List Path) (w : Fs) (written : List Path) :
    Between watched w w written :=
  ⟨fun p _ => Fs.SameWay.refl w p, fun _ _ _ => rfl, fun _ _ h => h⟩

theorem Between.trans {watched : List Path} {w w₁ w₂ : Fs} {front back : List Path}
    (h : Between watched w w₁ front) (h' : Between watched w₁ w₂ back)
    (hback : ∀ q ∈ back, q ∈ watched) : Between watched w w₂ (front ++ back) where
  ways p hp := (h.ways p hp).trans (h'.ways p hp)
  nodes l hl hne := by
    have hfront : w₁.nodes l = w.nodes l :=
      h.nodes l hl fun q hq => hne q (List.mem_append_left _ hq)
    rw [← hfront]
    refine h'.nodes l (hfront ▸ hl) fun q hq => ?_
    rw [(h.ways q (hback q hq)).entry]
    exact hne q (List.mem_append_right _ hq)
  links l stamp hl := h.links l stamp (h'.links l stamp hl)

theorem Between.mono {watched : List Path} {w w' : Fs} {written written' : List Path}
    (h : Between watched w w' written) (hsub : ∀ q ∈ written, q ∈ written') :
    Between watched w w' written' :=
  ⟨h.ways, fun l hl hne => h.nodes l hl fun q hq => hne q (hsub q hq), h.links⟩

theorem Kept.between {watched : List Path} {w w' : Fs} {path : Path} (h : Kept w w' path)
    (hlinks : Unlinked watched w [path]) : Between watched w w' [path] where
  ways p hp := h.ways p (hlinks path List.mem_cons_self p hp)
  nodes l hl hne := h.nodes l hl (hne path List.mem_cons_self)
  links := h.links

theorem Between.unlinked {watched : List Path} {w w' : Fs} {written paths : List Path}
    (h : Between watched w w' written) (hlinks : Unlinked watched w paths)
    (hpaths : ∀ q ∈ paths, q ∈ watched) : Unlinked watched w' paths := by
  rintro q hq p hp ⟨hthrough, stamp, hstamp⟩
  refine hlinks q hq p hp ⟨?_, stamp, ?_⟩
  · rw [← (h.ways p hp).through, ← (h.ways q (hpaths q hq)).entry]
    exact hthrough
  · rw [← (h.ways q (hpaths q hq)).entry]
    exact h.links _ stamp hstamp

/-- A node that a path names is still there when it is not written. -/
theorem Between.lookup {watched : List Path} {w w' : Fs} {written : List Path} {p : Path}
    {node : Node} (h : Between watched w w' written) (hp : p ∈ watched)
    (hnode : w.lookup p = some node) (hne : ∀ q ∈ written, w.entry p ≠ w.entry q) :
    w'.lookup p = some node := by
  have hthere : w.nodes (w.entry p) ≠ none := by
    rw [Fs.lookup] at hnode
    rw [hnode]
    exact fun h => by cases h
  rw [Fs.lookup, (h.ways p hp).entry, h.nodes _ hthere hne]
  exact hnode

/-- A path that is not written leads where it led. -/
theorem Between.target {watched : List Path} {w w' : Fs} {written : List Path} {p : Path}
    (h : Between watched w w' written) (hp : p ∈ watched)
    (hne : ∀ q ∈ written, w.entry p ≠ w.entry q) : w'.target p = w.target p := by
  have hway := h.ways p hp
  by_cases hlink : ∃ stamp, w.lookup p = some (.other stamp)
  · obtain ⟨stamp, hstamp⟩ := hlink
    rw [Fs.target, Fs.target, h.lookup hp hstamp hne, hstamp]
    exact hway.link
  · have hnone : ∀ stamp, w'.lookup p ≠ some (.other stamp) := by
      intro stamp hstamp
      rw [Fs.lookup, hway.entry] at hstamp
      exact hlink ⟨stamp, h.links _ stamp hstamp⟩
    rw [Fs.target_of_ne_other hnone, hway.entry,
      Fs.target_of_ne_other fun stamp hstamp => hlink ⟨stamp, hstamp⟩]

variable {Scalar Point Rng : Type} (ssl : OpenSsl Scalar Point Rng)

/-- The target of an entry that was decrypted. -/
abbrev targetOf (x : Pending × Except String Bytes) : Path := x.1.entry.target

/-- The record that is kept of a written entry. -/
def recordOf (p : Pending) (fingerprint : Fingerprint) : StateRecord :=
  { name := p.entry.name, eboxSha256 := p.eboxSha256, fingerprint }

/-- What writing the decrypted entries leaves. -/
structure Results (watched : List Path) (items : List (Pending × Except String Bytes))
    (state : State) (w : World) (r : List Outcome × State) (w' : World) : Prop where
  unlocks : w'.unlocks = w.unlocks
  length : r.1.length = items.length
  version : r.2.version = state.version
  between : Between watched w.fs w'.fs (items.map targetOf)
  others : ∀ q, (∀ x ∈ items, (targetOf x).components ≠ q.components) → r.2.get q = state.get q
  /-- If nothing failed, every entry is written and recorded. -/
  written : (∀ outcome ∈ r.1, outcome.isFailed = false) → ∀ x ∈ items, ∃ plain stamp,
    x.2 = .ok plain ∧ w'.fs.lookup (targetOf x) = some (.file plain stamp) ∧
      stamp.mode = x.1.entry.mode ∧ r.2.get (targetOf x) = some (recordOf x.1 stamp)

/-- Writing the decrypted entries, to places that differ. -/
theorem writeResults_spec (pid : UInt32) (watched : List Path)
    (items : List (Pending × Except String Bytes)) (state : State) (w : World)
    (hwatched : ∀ x ∈ items, targetOf x ∈ watched)
    (hlinks : Unlinked watched w.fs (items.map targetOf))
    (hkeys : items.Pairwise fun x y => (targetOf x).components ≠ (targetOf y).components)
    (hplaces : items.Pairwise fun x y => w.fs.entry (targetOf x) ≠ w.fs.entry (targetOf y)) :
    Prog.Ensures (World.Step ssl) (writeResults pid items state)
      (Results watched items state w) w := by
  induction items generalizing state w with
  | nil =>
    rw [writeResults]
    exact ⟨rfl, rfl, rfl, Between.same watched w.fs _, fun _ _ => rfl, fun _ x hx => nomatch hx⟩
  | cons x items ih =>
    rw [List.pairwise_cons] at hkeys hplaces
    have hmem : ∀ q ∈ items.map targetOf, q ∈ watched := by
      intro q hq
      obtain ⟨y, hy, rfl⟩ := List.mem_map.mp hq
      exact hwatched y (List.mem_cons_of_mem _ hy)
    have hlinksRest : Unlinked watched w.fs (items.map targetOf) :=
      fun q hq => hlinks q (List.mem_cons_of_mem _ hq)
    -- The others are written from wherever the first one has led to.
    have hrest : ∀ (state' : State) (w₁ : World), Between watched w.fs w₁.fs [targetOf x] →
        Prog.Ensures (World.Step ssl) (writeResults pid items state')
          (Results watched items state' w₁) w₁ := by
      intro state' w₁ hb
      refine ih state' w₁ (fun y hy => hwatched y (List.mem_cons_of_mem _ hy))
        (hb.unlinked hlinksRest hmem) hkeys.2 ?_
      refine hplaces.2.imp_of_mem ?_
      intro y z hy hz hne
      rw [(hb.ways _ (hmem _ (List.mem_map_of_mem hy))).entry,
        (hb.ways _ (hmem _ (List.mem_map_of_mem hz))).entry]
      exact hne
    -- When the first one fails, nothing is said about it.
    have hfailed : ∀ (message : String) (w₁ : World), w₁.unlocks = w.unlocks →
        Between watched w.fs w₁.fs [targetOf x] →
        Prog.Ensures (World.Step ssl) (writeResults pid items state >>= fun r =>
            pure (.failed message :: r.1, r.2))
          (Results watched (x :: items) state w) w₁ := by
      intro message w₁ hunlocks hb
      refine (hrest state w₁ hb).bind ?_
      intro r w₂ hr
      refine ⟨hr.unlocks.trans hunlocks, congrArg (· + 1) hr.length, hr.version, hb.trans hr.between hmem, ?_, ?_⟩
      · exact fun q hq => hr.others q fun y hy => hq y (List.mem_cons_of_mem _ hy)
      · intro hnone
        exact nomatch hnone _ List.mem_cons_self
    obtain ⟨p, e | plain⟩ := x
    · rw [writeResults]
      exact hfailed e w rfl (Between.same watched w.fs _)
    · rw [writeResults]
      refine (writeAtomically_spec ssl pid p.entry.target plain p.entry.mode w).bind ?_
      rintro r w₁ ⟨hunlocks, hwrote⟩
      have hb : Between watched w.fs w₁.fs [p.entry.target] := by
        rcases hwrote with ⟨rfl, -⟩ | ⟨parent, fileName, -, hwrote⟩
        · exact Between.same watched w₁.fs _
        · exact hwrote.kept.between fun q hq =>
            hlinks q (List.mem_singleton.mp hq ▸ List.mem_cons_self)
      rcases r with e | fp
      · exact hfailed e w₁ hunlocks hb
      · rcases hwrote with ⟨-, e, he⟩ | ⟨parent, fileName, -, hwrote⟩
        · cases he
        obtain ⟨hfound, hmode⟩ := hwrote.found (hlinks _ List.mem_cons_self _
          (hwatched _ List.mem_cons_self))
        refine (hrest _ w₁ hb).bind ?_
        intro r w₂ hr
        refine ⟨hr.unlocks.trans hunlocks, congrArg (· + 1) hr.length, hr.version, hb.trans hr.between hmem, ?_, ?_⟩
        · intro q hq
          rw [hr.others q fun y hy => hq y (List.mem_cons_of_mem _ hy), State.get_insert,
            if_neg (Ne.symm (hq _ List.mem_cons_self))]
        · intro hnone y hy
          rcases List.mem_cons.mp hy with rfl | hy
          · refine ⟨plain, fp, rfl, ?_, hmode, ?_⟩
            · refine hr.between.lookup (hwatched _ List.mem_cons_self) hfound ?_
              intro q hq
              obtain ⟨z, hz, rfl⟩ := List.mem_map.mp hq
              rw [(hb.ways _ (hwatched _ List.mem_cons_self)).entry,
                (hb.ways _ (hmem _ hq)).entry]
              exact hplaces.1 z hz
            · rw [hr.others _ fun z hz => Ne.symm (hkeys.1 z hz), State.get_insert, if_pos rfl]
              rfl
          · exact hr.written (fun outcome ho => hnone outcome (List.mem_cons_of_mem _ ho)) y hy

/-! ## The state file -/

/-- The state file is left as it is, unless it is missing and a directory is made in its place. -/
structure Spares (watched : List Path) (statePath : Path) (w w' : Fs) : Prop where
  ways : ∀ p ∈ watched, Fs.SameWay w w' p
  links : ∀ l stamp, w'.nodes l = some (.other stamp) → w.nodes l = some (.other stamp)
  state : ∀ l, l = w.entry statePath ∨ l = w.target statePath →
    w'.nodes l = w.nodes l ∨ w.nodes l = none ∧ w'.nodes l = some .dir

theorem Spares.refl (watched : List Path) (statePath : Path) (w : Fs) :
    Spares watched statePath w w :=
  ⟨fun p _ => Fs.SameWay.refl w p, fun _ _ h => h, fun _ _ => .inl rfl⟩

/-- A path whose node stays, or where a directory is made, leads to the same place. -/
theorem target_eq_of_sameWay {w w' : Fs} {p : Path} (hway : Fs.SameWay w w' p)
    (hnode : w'.nodes (w.entry p) = w.nodes (w.entry p) ∨
      w.nodes (w.entry p) = none ∧ w'.nodes (w.entry p) = some .dir) :
    w'.target p = w.target p := by
  rcases hnode with hsame | ⟨hnone, hdir⟩
  · have hlookup : w'.lookup p = w.lookup p := by
      rw [Fs.lookup, Fs.lookup, hway.entry, hsame]
    rw [Fs.target, Fs.target, hlookup, hway.entry, hway.link]
  · have hlookup : w'.lookup p = some .dir := by
      rw [Fs.lookup, hway.entry, hdir]
    rw [Fs.target_of_dir hlookup, Fs.target_of_none hnone, hway.entry]

theorem Spares.target {watched : List Path} {statePath : Path} {w w' : Fs}
    (h : Spares watched statePath w w') (hmem : statePath ∈ watched) :
    w'.target statePath = w.target statePath :=
  target_eq_of_sameWay (h.ways _ hmem) (h.state _ (.inl rfl))

theorem Spares.trans {watched : List Path} {statePath : Path} {w w₁ w₂ : Fs}
    (h : Spares watched statePath w w₁) (h' : Spares watched statePath w₁ w₂)
    (hmem : statePath ∈ watched) : Spares watched statePath w w₂ where
  ways p hp := (h.ways p hp).trans (h'.ways p hp)
  links l stamp hl := h.links l stamp (h'.links l stamp hl)
  state l hl := by
    have hl' : l = w₁.entry statePath ∨ l = w₁.target statePath := by
      rw [(h.ways _ hmem).entry, h.target hmem]
      exact hl
    rcases h.state l hl with hsame | ⟨hnone, hdir⟩
    · rcases h'.state l hl' with hsame' | ⟨hnone', hdir'⟩
      · exact .inl (hsame'.trans hsame)
      · exact .inr ⟨hsame.symm.trans hnone', hdir'⟩
    · rcases h'.state l hl' with hsame' | ⟨hnone', -⟩
      · exact .inr ⟨hnone, hsame'.trans hdir⟩
      · exact nomatch hdir.symm.trans hnone'

/-- A state file that is spared says what it said. -/
theorem Spares.stateIs {watched : List Path} {statePath : Path} {w w' : Fs} {libs : Libs}
    {state : State} (h : Spares watched statePath w w') (hmem : statePath ∈ watched)
    (hstate : StateIs libs w' statePath state) : StateIs libs w statePath state := by
  rw [StateIs, h.target hmem] at hstate
  rcases h.state _ (.inr rfl) with hsame | ⟨-, hdir⟩
  · rw [hsame] at hstate
    exact hstate
  · rw [hdir] at hstate
    rcases hstate with ⟨hnone, -⟩ | ⟨text, stamp, hfile, -⟩
    · cases hnone
    · cases hfile

/-- Two places apart from the state file. -/
def ApartFrom (statePath : Path) (fs : Fs) (p : Path) : Prop :=
  fs.entry p ≠ fs.entry statePath ∧ fs.entry p ≠ fs.target statePath

theorem Spares.apartFrom {watched : List Path} {statePath p : Path} {w w' : Fs}
    (h : Spares watched statePath w w') (hmem : statePath ∈ watched) (hp : p ∈ watched)
    (hapart : ApartFrom statePath w p) : ApartFrom statePath w' p := by
  rw [ApartFrom, (h.ways p hp).entry, (h.ways _ hmem).entry, h.target hmem]
  exact hapart

theorem Spares.unlinked {watched : List Path} {statePath : Path} {w w' : Fs} {paths : List Path}
    (h : Spares watched statePath w w') (hlinks : Unlinked watched w paths)
    (hpaths : ∀ q ∈ paths, q ∈ watched) : Unlinked watched w' paths := by
  rintro q hq p hp ⟨hthrough, stamp, hstamp⟩
  refine hlinks q hq p hp ⟨?_, stamp, ?_⟩
  · rw [← (h.ways p hp).through, ← (h.ways q (hpaths q hq)).entry]
    exact hthrough
  · rw [← (h.ways q (hpaths q hq)).entry]
    exact h.links _ stamp hstamp

/-- A write apart from the state file spares it. -/
theorem Wrote.spares {watched : List Path} {statePath : Path} {w w' : Fs}
    {parent path tmp : Path} {contents : Bytes} {mode : UInt32} {r : Except String Fingerprint}
    (h : Wrote w parent path tmp contents mode r w') (hlinks : Unlinked watched w [path])
    (hpath : ApartFrom statePath w path) (htmp : ApartFrom statePath w tmp) :
    Spares watched statePath w w' where
  ways p hp := h.kept.ways p (hlinks path List.mem_cons_self p hp)
  links := h.kept.links
  state l hl := by
    have hne : l ≠ w.entry tmp := by
      rintro rfl
      rcases hl with hl | hl
      · exact htmp.1 hl
      · exact htmp.2 hl
    rcases h.nodes hne with hsame | ⟨hnone, -, hdir⟩ | ⟨rfl, -⟩
    · exact .inl hsame
    · exact .inr ⟨hnone, hdir⟩
    · rcases hl with hl | hl
      · exact absurd hl hpath.1
      · exact absurd hl hpath.2

/-! ## The history -/

section

-- What a fingerprint of a target stands for, and which paths are declared at any time.
variable (libs : Libs) (statePath : Path) (content : List Component → Fingerprint → Bytes)
  (declared : Path → Prop)

/-- The fingerprint of a declared target tells what is in it. -/
def Consistent (fs : Fs) : Prop :=
  ∀ p, declared p → ∀ data stamp, fs.lookup p = some (.file data stamp) →
    content p.components stamp = data

/-- Every record stands for a plaintext of an ebox with its digest. -/
def Sound (state : State) : Prop :=
  ∀ q record, state.get q = some record → ∃ bytes stream,
    libs.sha256 bytes = record.eboxSha256 ∧ EboxStream.fromBytes bytes = .ok stream ∧
      Decrypts ssl stream bytes (content q.components record.fingerprint)

/-- The paths a run works with. -/
def watchedBy (pid : UInt32) (entries : List Entry) : List Path :=
  statePath :: tmpOf pid statePath ::
    entries.flatMap fun e => [e.target, tmpOf pid e.target, e.ebox]

/-- The state file is none of the other files a run writes, and no link that is replaced is on
the way to a path the run works with. -/
structure Undisturbed (pid : UInt32) (entries : List Entry) (fs : Fs) : Prop where
  targets : ∀ e ∈ entries, ApartFrom statePath fs e.target ∧
    ApartFrom statePath fs (tmpOf pid e.target)
  save : ApartFrom statePath fs (tmpOf pid statePath)
  links : Unlinked (watchedBy statePath pid entries) fs (statePath :: entries.map Entry.target)

theorem sound_empty : Sound ssl libs content State.empty := by
  intro q record h
  cases h

/-- A written entry is recorded soundly. -/
private theorem Sound.insert {state : State} (h : Sound ssl libs content state) {p : Pending}
    {plain : Bytes} {fp : Fingerprint} (hsha : p.eboxSha256 = libs.sha256 p.bytes)
    (hplain : Plain ssl p (.ok plain)) (hcontent : content p.entry.target.components fp = plain) :
    Sound ssl libs content (state.insert p.entry.target (recordOf p fp)) := by
  intro q record hget
  rw [State.get_insert] at hget
  split at hget
  · next hkey =>
    cases hget
    obtain ⟨stream, hparse, hdecrypts⟩ := hplain plain rfl
    refine ⟨p.bytes, stream, hsha.symm, hparse, ?_⟩
    rw [hkey]
    exact hcontent.symm ▸ hdecrypts
  · exact h q record hget

private theorem Sound.foldl_remove {state : State} (h : Sound ssl libs content state)
    (orphans : List Path) : Sound ssl libs content (orphans.foldl State.remove state) := by
  intro q record hget
  rw [State.get_foldl_remove] at hget
  split at hget
  · cases hget
  · exact h q record hget

/-- Writing the decrypted entries of any run spares the state file and keeps the records sound. -/
private theorem writeResults_sound (pid : UInt32) {watched : List Path}
    (items : List (Pending × Except String Bytes)) (state : State) (w : World)
    (hstatePath : statePath ∈ watched)
    (hitems : ∀ x ∈ items, Plain ssl x.1 x.2 ∧ x.1.eboxSha256 = libs.sha256 x.1.bytes ∧
      declared (targetOf x) ∧ targetOf x ∈ watched ∧ tmpOf pid (targetOf x) ∈ watched ∧
      ApartFrom statePath w.fs (targetOf x) ∧ ApartFrom statePath w.fs (tmpOf pid (targetOf x)))
    (hlinks : Unlinked watched w.fs (items.map targetOf))
    (hw : Consistent content declared w.fs) (hsound : Sound ssl libs content state) :
    Prog.Ensures
      (fun w op answer w' => World.Step ssl w op answer w' ∧ Consistent content declared w'.fs)
      (writeResults pid items state)
      (fun r w' => (Spares watched statePath w.fs w'.fs ∧ Sound ssl libs content r.2) ∧
        Consistent content declared w'.fs) w := by
  induction items generalizing state w with
  | nil =>
    rw [writeResults]
    exact ⟨⟨Spares.refl watched statePath w.fs, hsound⟩, hw⟩
  | cons x items ih =>
    obtain ⟨hplain, hsha, hdeclared, htarget, htmpWatched, hapart, htmp⟩ :=
      hitems x List.mem_cons_self
    have hmem : ∀ q ∈ items.map targetOf, q ∈ watched := by
      intro q hq
      obtain ⟨y, hy, rfl⟩ := List.mem_map.mp hq
      exact (hitems y (List.mem_cons_of_mem _ hy)).2.2.2.1
    -- The rest, from wherever the first one has led to.
    have hrest : ∀ (state' : State) (w₁ : World), Spares watched statePath w.fs w₁.fs →
        Consistent content declared w₁.fs → Sound ssl libs content state' →
        Prog.Ensures (fun w op answer w' =>
            World.Step ssl w op answer w' ∧ Consistent content declared w'.fs)
          (writeResults pid items state')
          (fun r w' => (Spares watched statePath w.fs w'.fs ∧ Sound ssl libs content r.2) ∧
            Consistent content declared w'.fs) w₁ := by
      intro state' w₁ hspares hw₁ hsound'
      refine (ih state' w₁ ?_ ?_ hw₁ hsound').mono ?_
      · intro y hy
        obtain ⟨hp, hs, hd, ht, htw, ha, hat⟩ := hitems y (List.mem_cons_of_mem _ hy)
        exact ⟨hp, hs, hd, ht, htw, hspares.apartFrom hstatePath ht ha,
          hspares.apartFrom hstatePath htw hat⟩
      · exact hspares.unlinked (fun q hq => hlinks q (List.mem_cons_of_mem _ hq)) hmem
      · rintro r w₂ ⟨⟨hspares', hsound''⟩, hw₂⟩
        exact ⟨⟨hspares.trans hspares' hstatePath, hsound''⟩, hw₂⟩
    obtain ⟨p, e | plain⟩ := x
    · rw [writeResults]
      refine (hrest state w (Spares.refl watched statePath w.fs) hw hsound).bind ?_
      exact fun r w' h => h
    · rw [writeResults]
      refine ((writeAtomically_spec ssl pid p.entry.target plain p.entry.mode w).within
        (fun w => Consistent content declared w.fs) hw).bind ?_
      rintro r w₁ ⟨⟨-, hwrote⟩, hw₁⟩
      have hself : Unlinked watched w.fs [p.entry.target] := fun q hq =>
        hlinks q (List.mem_singleton.mp hq ▸ List.mem_cons_self)
      have hspares : Spares watched statePath w.fs w₁.fs := by
        rcases hwrote with ⟨rfl, -⟩ | ⟨parent, fileName, -, hwrote⟩
        · exact Spares.refl watched statePath w₁.fs
        · exact hwrote.spares hself hapart htmp
      rcases r with e | fp
      · refine (hrest state w₁ hspares hw₁ hsound).bind ?_
        exact fun r w' h => h
      · rcases hwrote with ⟨-, e, he⟩ | ⟨parent, fileName, -, hwrote⟩
        · cases he
        obtain ⟨hfound, -⟩ := hwrote.found (hself _ List.mem_cons_self _ htarget)
        have hcontent := hw₁ _ hdeclared _ _ hfound
        refine (hrest _ w₁ hspares hw₁ (hsound.insert ssl libs content hsha hplain hcontent)).bind ?_
        exact fun r w' h => h

/-- What a state file says after it was saved: what it said before, or what was saved. -/
theorem Wrote.stateIs {w w' : Fs} {parent tmp : Path} {text : String} {mode : UInt32}
    {r : Except String Fingerprint} {state : State}
    (h : Wrote w parent statePath tmp (strBytes text) mode r w')
    (hway : ¬ w.Carries (w.entry statePath) statePath) (htmp : ApartFrom statePath w tmp)
    (hstate : StateIs libs w' statePath state) :
    StateIs libs w statePath state ∨ libs.stateFromJson text = .ok state := by
  have hsame : Fs.SameWay w w' statePath := h.kept.ways statePath hway
  -- Unless it was replaced, the path leads to where it led.
  have hold : (w'.nodes (w.entry statePath) = w.nodes (w.entry statePath) ∨
      w.nodes (w.entry statePath) = none ∧ w'.nodes (w.entry statePath) = some .dir) →
      StateIs libs w statePath state := by
    intro hnode
    rw [StateIs, target_eq_of_sameWay hsame hnode] at hstate
    have hplace : w'.nodes (w.target statePath) = w.nodes (w.target statePath) ∨
        w'.nodes (w.target statePath) = some .dir := by
      by_cases hentry : w.target statePath = w.entry statePath
      · rw [hentry]
        rcases hnode with hnode | ⟨-, hdir⟩
        · exact .inl hnode
        · exact .inr hdir
      · rcases h.nodes (Ne.symm htmp.2) with hnode | ⟨-, -, hdir⟩ | ⟨heq, -⟩
        · exact .inl hnode
        · exact .inr hdir
        · exact absurd heq hentry
    rcases hplace with hplace | hplace
    · rw [hplace] at hstate
      exact hstate
    · rw [hplace] at hstate
      rcases hstate with ⟨hnone, -⟩ | ⟨text, stamp, hfile, -⟩
      · cases hnone
      · cases hfile
  rcases h.nodes (Ne.symm htmp.1) with hnode | ⟨hnone, -, hdir⟩ | ⟨-, stamp, hfile⟩
  · exact .inl (hold (.inl hnode))
  · exact .inl (hold (.inr ⟨hnone, hdir⟩))
  · have hlookup : w'.lookup statePath = some (.file (strBytes text) stamp) := by
      rw [Fs.lookup, hsame.entry, hfile]
    rw [StateIs, Fs.target_of_file hlookup] at hstate
    rcases hstate with ⟨hnone, -⟩ | ⟨text', stamp', hfile', hjson, -⟩
    · cases hlookup.symm.trans hnone
    · have htext := hlookup.symm.trans hfile'
      injection htext with htext
      injection htext with htext
      exact .inr (strBytes_inj htext ▸ hjson)

/-- The invariant of the state file. -/
def SoundFile (fs : Fs) : Prop := ∀ state, StateIs libs fs statePath state →
  Sound ssl libs content state

/-- Saving a sound state. -/
private theorem saveState_sound (hjson : ∀ state,
      libs.stateFromJson (libs.stateToJson state ++ "\n") = .ok state)
    (pid : UInt32) (state : State) (w : World) (hstate : Sound ssl libs content state)
    (hfile : SoundFile ssl libs statePath content w.fs)
    (hway : ¬ w.fs.Carries (w.fs.entry statePath) statePath)
    (htmp : ApartFrom statePath w.fs (tmpOf pid statePath)) :
    Prog.Ensures (World.Step ssl) (saveState libs pid statePath state)
      (fun _ w' => SoundFile ssl libs statePath content w'.fs) w := by
  refine (writeAtomically_spec ssl pid statePath _ _ w).bind ?_
  rintro r w' ⟨-, hwrote⟩
  have hsound : SoundFile ssl libs statePath content w'.fs := by
    rcases hwrote with ⟨rfl, -⟩ | ⟨parent, fileName, -, hwrote⟩
    · exact hfile
    · intro state' hstate'
      rcases hwrote.stateIs libs statePath hway htmp hstate' with hold | hnew
      · exact hfile state' hold
      · obtain rfl : state = state' := Except.ok.inj ((hjson state).symm.trans hnew)
        exact hstate
  rcases r with e | fp
  · exact hsound
  · exact hsound

theorem mem_watchedBy_target (pid : UInt32) {entries : List Entry} {e : Entry} (he : e ∈ entries) :
    e.target ∈ watchedBy statePath pid entries ∧
      tmpOf pid e.target ∈ watchedBy statePath pid entries ∧
      e.ebox ∈ watchedBy statePath pid entries := by
  have hall : ∀ p ∈ [e.target, tmpOf pid e.target, e.ebox], p ∈ watchedBy statePath pid entries :=
    fun p hp => List.mem_cons_of_mem _ (List.mem_cons_of_mem _ (List.mem_flatMap.mpr ⟨e, he, hp⟩))
  exact ⟨hall _ (by simp), hall _ (by simp), hall _ (by simp)⟩

/-- The written entries are pending ones, each with a plaintext of it. -/
private theorem mem_zip_plain {pending : List Pending} {results : List (Except String Bytes)}
    (h : List.Forall₂ (Plain ssl) pending results) {x : Pending × Except String Bytes}
    (hx : x ∈ pending.zip results) : x.1 ∈ pending ∧ Plain ssl x.1 x.2 :=
  ⟨(List.of_mem_zip hx).1, List.forall₂_zip h hx⟩

theorem mem_watchedBy_of_written {pid : UInt32} {entries : List Entry} (q : Path)
    (hq : q ∈ statePath :: entries.map Entry.target) : q ∈ watchedBy statePath pid entries := by
  rcases List.mem_cons.mp hq with rfl | hq
  · exact List.mem_cons_self
  · obtain ⟨e, he, rfl⟩ := List.mem_map.mp hq
    exact (mem_watchedBy_target statePath pid he).1

/-- What any run writes spares the state file, and its records are sound. -/
private theorem writePending_sound (pid : UInt32) {args : ReconcileArgs} {entries : List Entry}
    {state : State} {plans : List (Outcome ⊕ Pending)} {w : World}
    (hplans : List.Forall₂ (Examined libs args state w.fs) entries plans)
    (hdeclared : ∀ e ∈ entries, declared e.target)
    (hquiet : Undisturbed statePath pid entries w.fs)
    (hw : Consistent content declared w.fs) (hsound : Sound ssl libs content state) :
    Prog.Ensures
      (fun w op answer w' => World.Step ssl w op answer w' ∧ Consistent content declared w'.fs)
      (writePending ssl pid (plans.filterMap Sum.getRight?) state)
      (fun r w' => (Spares (watchedBy statePath pid entries) statePath w.fs w'.fs ∧
        Sound ssl libs content r.2) ∧ Consistent content declared w'.fs) w := by
  rw [writePending]
  split
  · exact ⟨⟨Spares.refl _ statePath w.fs, hsound⟩, hw⟩
  · refine ((decryptPending_spec ssl _ w).within
      (fun w => Consistent content declared w.fs) hw).bind ?_
    rintro results w₁ ⟨⟨hfs, -, hplain⟩, hw₁⟩
    rw [← hfs]
    refine writeResults_sound ssl libs statePath content declared pid _ state w₁
      List.mem_cons_self ?_ ?_ hw₁ hsound
    · intro x hx
      obtain ⟨hpending, hx⟩ := mem_zip_plain ssl hplain hx
      obtain ⟨hentry, hexamined⟩ := examined_of_mem_pending hplans hpending
      obtain ⟨htarget, htmp, -⟩ := mem_watchedBy_target statePath pid hentry
      rw [hfs]
      cases hexamined with
      | pending _ _ hsha _ _ _ =>
        exact ⟨hx, hsha, hdeclared _ hentry, htarget, htmp, hquiet.targets _ hentry⟩
    · rw [hfs]
      intro q hq
      obtain ⟨x, hx, rfl⟩ := List.mem_map.mp hq
      have hentry := (examined_of_mem_pending hplans (mem_zip_plain ssl hplain hx).1).1
      exact hquiet.links _ (List.mem_cons_of_mem _ (List.mem_map_of_mem hentry))

/-- From the classified entries on, any run keeps the state file sound. -/
private theorem settle_sound (hjson : ∀ state,
      libs.stateFromJson (libs.stateToJson state ++ "\n") = .ok state)
    (pid : UInt32) (args : ReconcileArgs) {entries : List Entry} {state : State}
    {plans : List (Outcome ⊕ Pending)} {w : World}
    (hplans : List.Forall₂ (Examined libs args state w.fs) entries plans)
    (hdeclared : ∀ e ∈ entries, declared e.target)
    (hquiet : args.check = false → Undisturbed statePath pid entries w.fs)
    (hw : Consistent content declared w.fs) (hsound : Sound ssl libs content state)
    (hfile : SoundFile ssl libs statePath content w.fs) :
    Prog.Ensures
      (fun w op answer w' => World.Step ssl w op answer w' ∧ Consistent content declared w'.fs)
      (settle ssl libs pid args statePath entries state plans)
      (fun _ w' => SoundFile ssl libs statePath content w'.fs ∧
        Consistent content declared w'.fs) w := by
  rw [settle]
  cases hcheck : args.check with
  | true =>
    rw [pending_eq_nil hcheck hplans]
    exact ⟨hfile, hw⟩
  | false =>
    have hquiet := hquiet hcheck
    refine (writePending_sound ssl libs statePath content declared pid hplans hdeclared hquiet hw
      hsound).bind ?_
    rintro ⟨written, state'⟩ w₁ ⟨⟨hspares, hsound'⟩, hw₁⟩
    have hfile₁ : SoundFile ssl libs statePath content w₁.fs := fun st hst =>
      hfile st (hspares.stateIs List.mem_cons_self hst)
    have hway : ¬ w₁.fs.Carries (w₁.fs.entry statePath) statePath :=
      hspares.unlinked hquiet.links (mem_watchedBy_of_written statePath) _ List.mem_cons_self _
        List.mem_cons_self
    have htmp := hspares.apartFrom List.mem_cons_self
      (List.mem_cons_of_mem _ List.mem_cons_self) hquiet.save
    have hnext : Sound ssl libs content
        (releaseOrphans args (orphansOf state entries) state') := by
      rw [releaseOrphans]
      split
      · exact hsound'
      · exact hsound'.foldl_remove ssl libs content _
    have hsaved : ∀ changed, Prog.Ensures
        (fun w op answer w' => World.Step ssl w op answer w' ∧ Consistent content declared w'.fs)
        (saveChanged libs pid statePath (releaseOrphans args (orphansOf state entries) state')
          changed)
        (fun _ w' => SoundFile ssl libs statePath content w'.fs ∧
          Consistent content declared w'.fs) w₁ := by
      intro changed
      rw [saveChanged]
      split
      · refine ((saveState_sound ssl libs statePath content hjson pid _ w₁ hnext hfile₁ hway
          htmp).within (fun w => Consistent content declared w.fs) hw₁).bind ?_
        rintro (e | ⟨⟩) w₂ h
        · exact h
        · exact h
      · exact ⟨hfile₁, hw₁⟩
    refine (hsaved _).bind ?_
    exact fun exit w₂ h => h

/-- Any run keeps the state file sound. -/
private theorem reconcile_sound (hjson : ∀ state,
      libs.stateFromJson (libs.stateToJson state ++ "\n") = .ok state)
    (pid : UInt32) (args : ReconcileArgs) {entries : List Entry} {w : World}
    (hdeclared : ∀ e ∈ entries, declared e.target)
    (hquiet : args.check = false → Undisturbed statePath pid entries w.fs)
    (hw : Consistent content declared w.fs)
    (hfile : SoundFile ssl libs statePath content w.fs) :
    Prog.Ensures
      (fun w op answer w' => World.Step ssl w op answer w' ∧ Consistent content declared w'.fs)
      (reconcile ssl libs pid args statePath entries)
      (fun _ w' => SoundFile ssl libs statePath content w'.fs ∧
        Consistent content declared w'.fs) w := by
  have hentries : Prog.Ensures
      (fun w op answer w' => World.Step ssl w op answer w' ∧ Consistent content declared w'.fs)
      (reconcileEntries ssl libs pid args statePath entries)
      (fun _ w' => SoundFile ssl libs statePath content w'.fs ∧
        Consistent content declared w'.fs) w := by
    refine ((loadState_spec ssl libs statePath w).within
      (fun w => Consistent content declared w.fs) hw).bind ?_
    rintro r w' ⟨⟨rfl, hload⟩, hw⟩
    rcases r with e | state
    · exact ⟨hfile, hw⟩
    refine ((examineAll_spec ssl libs args state entries w').within
      (fun w => Consistent content declared w.fs) hw).bind ?_
    rintro plans w₁ ⟨⟨rfl, hplans⟩, hw₁⟩
    refine (settle_sound ssl libs statePath content declared hjson pid args hplans hdeclared
      hquiet hw₁ (hfile state (hload state rfl)) hfile).bind ?_
    exact fun settled w₂ h => h
  refine hentries.bind ?_
  rintro (code | settled) w' h
  · exact h
  · simp only [Prog.op_bind, Prog.ensures_call]
    rintro (e | ⟨⟩) w'' ⟨rfl, -⟩
    · exact h
    · exact h

/-! ## Histories -/

/-- The worlds a history leads to: it starts without a state file; runs with any entries and
arguments, and edits that leave the state file alone, follow in any order. A run that was cut
short before it saved the state is an edit. -/
inductive Reached : World → Prop where
  | start (w : World) (habsent : w.fs.nodes (w.fs.target statePath) = none)
      (hw : Consistent content declared w.fs) : Reached w
  | edit {w w' : World} (h : Reached w)
      (hstate : ∀ state, StateIs libs w'.fs statePath state → StateIs libs w.fs statePath state)
      (hw : Consistent content declared w'.fs) : Reached w'
  | run {w w' : World} {pid : UInt32} {args : ReconcileArgs} {entries : List Entry} {code : Nat}
      (h : Reached w) (hdeclared : ∀ e ∈ entries, declared e.target)
      (hquiet : args.check = false → Undisturbed statePath pid entries w.fs)
      (hrun : Prog.Exec (fun w op answer w' =>
          World.Step ssl w op answer w' ∧ Consistent content declared w'.fs)
        (reconcile ssl libs pid args statePath entries) w code w') : Reached w'

/-- The state file is sound in every history. -/
theorem Reached.sound (hjson : ∀ state,
      libs.stateFromJson (libs.stateToJson state ++ "\n") = .ok state) {w : World}
    (h : Reached ssl libs statePath content declared w) :
    SoundFile ssl libs statePath content w.fs ∧ Consistent content declared w.fs := by
  induction h with
  | start w habsent hw =>
    refine ⟨?_, hw⟩
    rintro state (⟨-, rfl⟩ | ⟨text, stamp, hfile, -⟩)
    · exact sound_empty ssl libs content
    · exact nomatch habsent.symm.trans hfile
  | edit _ hstate hw ih => exact ⟨fun state h => ih.1 state (hstate state h), hw⟩
  | run _ hdeclared hquiet hrun ih =>
    exact Prog.ensures_iff.mp (reconcile_sound ssl libs statePath content declared hjson _ _
      hdeclared hquiet ih.2 ih.1) _ _ hrun

end

end Piggy.Secrets
