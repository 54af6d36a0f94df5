import Piggy.Secrets.History
import Piggy.Batch.Agreement
import Mathlib.Logic.Equiv.List
import Mathlib.Data.Countable.Basic

/-!
# Reconciling converges

A run that exits 0 leaves every declared target with the plaintext of its ebox, and the next
run finds nothing to do. A target that other things lead to, or whose mode was changed in the
manifest, may be missed.
-/

namespace Piggy.Secrets

open Piggy.Core Piggy.Box Piggy.Store Piggy.Batch

variable {Scalar Point Rng : Type} (ssl : OpenSsl Scalar Point Rng)

section

variable (libs : Libs) (statePath : Path) (content : List Component → Fingerprint → Bytes)
  (declared : Path → Prop)

/-! ## A run that exits 0 -/

/-- A target is a regular file that holds a plaintext of the ebox with the mode of the entry, and
its record has its fingerprint and the digest of the ebox. -/
def InPlace (state : State) (fs : Fs) (e : Entry) : Prop :=
  ∃ bytes stream plain stamp record,
    (∃ stamp, fs.nodes (fs.target e.ebox) = some (.file bytes stamp)) ∧
    EboxStream.fromBytes bytes = .ok stream ∧ Decrypts ssl stream bytes plain ∧
    fs.lookup e.target = some (.file plain stamp) ∧ stamp.mode = e.mode ∧
    state.get e.target = some record ∧ record.fingerprint = stamp ∧
    record.eboxSha256 = libs.sha256 bytes

/-- Every target is in place, and the state file has the records of the targets and no others. -/
def Converged (entries : List Entry) (fs : Fs) : Prop :=
  ∃ state, StateIs libs fs statePath state ∧
    (∀ q record, state.get q = some record → ∃ e ∈ entries, e.target.components = q.components) ∧
    ∀ e ∈ entries, InPlace ssl libs state fs e

/-- The condition on a run: its targets are different files, none of them is the state file or an
ebox, nor is the state file an ebox, no link that is replaced is on the way to any of these, and
an entry that is up to date has the mode it was written with. -/
structure Separate (pid : UInt32) (entries : List Entry) (fs : Fs) : Prop
    extends Undisturbed statePath pid entries fs where
  places : entries.Pairwise fun e f => fs.entry e.target ≠ fs.entry f.target
  eboxes : ∀ q ∈ statePath :: entries.map Entry.target, ∀ f ∈ entries,
    fs.entry q ≠ fs.entry f.ebox ∧ fs.entry q ≠ fs.target f.ebox
  modes : ∀ e ∈ entries, ∀ state bytes data stamp, StateIs libs fs statePath state →
    (∃ stamp, fs.nodes (fs.target e.ebox) = some (.file bytes stamp)) →
    fs.lookup e.target = some (.file data stamp) →
    classify (.file true stamp) (state.get e.target) (libs.sha256 bytes) e.adopt = .fresh →
      stamp.mode = e.mode

/-- The targets of a manifest are different paths. -/
theorem parseEntries_pairwise {names : List String} {targets : List Path}
    {docs : List ManifestEntryDoc} {entries : List Entry}
    (h : parseEntries names targets docs = .ok entries) :
    (∀ e ∈ entries, ∀ t ∈ targets, t.components ≠ e.target.components) ∧
      entries.Pairwise fun e f => e.target.components ≠ f.target.components := by
  induction docs generalizing names targets entries with
  | nil =>
    cases h
    exact ⟨(fun e he => nomatch he), List.Pairwise.nil⟩
  | cons doc docs ih =>
    simp only [parseEntries, bind_ok, pure_ok] at h
    obtain ⟨entry, hentry, rest, hrest, rfl⟩ := h
    obtain ⟨hbefore, hpairwise⟩ := ih hrest
    have hdoc : entry.target = doc.target ∧
        ∀ t ∈ targets, t.components ≠ doc.target.components := by
      rw [parseEntry] at hentry
      split at hentry
      · cases hentry
      split at hentry
      · cases hentry
      split at hentry
      · cases hentry
      split at hentry
      · cases hentry
      next hnew =>
        have hnew' : ∀ t ∈ targets, t.components ≠ doc.target.components := by
          simpa using hnew
        split at hentry
        · cases hentry
          exact ⟨rfl, hnew'⟩
        · split at hentry
          · cases hentry
          · cases hentry
            exact ⟨rfl, hnew'⟩
    refine ⟨?_, .cons ?_ hpairwise⟩
    · intro e he t ht
      rcases List.mem_cons.mp he with rfl | he
      · rw [hdoc.1]
        exact hdoc.2 t ht
      · exact hbefore e he t (List.mem_append_left _ ht)
    · intro f hf
      rw [hdoc.1]
      exact hbefore f hf _ (List.mem_append_right _ List.mem_cons_self)

/-- An ebox that is not written is still there. -/
private theorem Between.ebox {watched : List Path} {w w' : Fs} {written : List Path} {p : Path}
    {bytes : Bytes} (h : Between watched w w' written) (hp : p ∈ watched)
    (hfile : ∃ stamp, w.nodes (w.target p) = some (.file bytes stamp))
    (hne : ∀ q ∈ written, w.entry q ≠ w.entry p ∧ w.entry q ≠ w.target p) :
    ∃ stamp, w'.nodes (w'.target p) = some (.file bytes stamp) := by
  obtain ⟨stamp, hfile⟩ := hfile
  have hthere : w.nodes (w.target p) ≠ none := by
    rw [hfile]
    exact fun h => nomatch h
  have hkept : w'.nodes (w.target p) = some (.file bytes stamp) :=
    (h.nodes _ hthere fun q hq => (hne q hq).2.symm).trans hfile
  have hentry : w.nodes (w.entry p) ≠ none := by
    intro hnone
    rw [Fs.target_of_none hnone] at hthere
    exact hthere hnone
  have hsame : w'.nodes (w.entry p) = w.nodes (w.entry p) :=
    h.nodes _ hentry fun q hq => (hne q hq).1.symm
  refine ⟨stamp, ?_⟩
  rw [target_eq_of_sameWay (h.ways p hp) (.inl hsame)]
  exact hkept

/-- Outcomes that are no failures come from plans and writes that are none. -/
private theorem not_failed_of_fillOutcomes {plans : List (Outcome ⊕ Pending)}
    {written : List Outcome}
    (hlength : written.length = (plans.filterMap Sum.getRight?).length)
    (h : ∀ outcome ∈ fillOutcomes plans written, outcome.isFailed = false) :
    (∀ outcome, .inl outcome ∈ plans → outcome.isFailed = false) ∧
      ∀ outcome ∈ written, outcome.isFailed = false := by
  induction plans generalizing written with
  | nil =>
    obtain rfl : written = [] := List.length_eq_zero_iff.mp hlength
    exact ⟨(fun _ h => nomatch h), fun _ h => nomatch h⟩
  | cons plan plans ih =>
    rcases plan with outcome | p
    · obtain ⟨hplans, hwritten⟩ := ih hlength fun o ho => h o (List.mem_cons_of_mem _ ho)
      refine ⟨?_, hwritten⟩
      intro o ho
      rcases List.mem_cons.mp ho with heq | ho
      · cases heq
        exact h _ List.mem_cons_self
      · exact hplans o ho
    · rcases written with _ | ⟨outcome, written⟩
      · cases hlength
      · obtain ⟨hplans, hwritten⟩ := ih (Nat.succ.inj hlength)
          fun o ho => h o (List.mem_cons_of_mem _ ho)
        refine ⟨?_, ?_⟩
        · intro o ho
          rcases List.mem_cons.mp ho with heq | ho
          · cases heq
          · exact hplans o ho
        · intro o ho
          rcases List.mem_cons.mp ho with rfl | ho
          · exact h _ List.mem_cons_self
          · exact hwritten o ho

private theorem exists_mem_zip {α β : Type} {as : List α} {bs : List β}
    (hlength : as.length = bs.length) {a : α} (ha : a ∈ as) : ∃ b, (a, b) ∈ as.zip bs := by
  have hmem : a ∈ (as.zip bs).map Prod.fst := by
    rw [List.map_fst_zip (Nat.le_of_eq hlength)]
    exact ha
  obtain ⟨⟨a', b⟩, hx, rfl⟩ := List.mem_map.mp hmem
  exact ⟨b, hx⟩

private theorem exists_mem_zip_right {α β : Type} {as : List α} {bs : List β}
    (hlength : as.length = bs.length) {b : β} (hb : b ∈ bs) : ∃ a, (a, b) ∈ as.zip bs := by
  have hmem : b ∈ (as.zip bs).map Prod.snd := by
    rw [List.map_snd_zip (Nat.le_of_eq hlength.symm)]
    exact hb
  obtain ⟨⟨a, b'⟩, hx, rfl⟩ := List.mem_map.mp hmem
  exact ⟨a, hx⟩

/-- What is in place stays in place when other things are written. -/
private theorem InPlace.frame {watched : List Path} {state state' : State} {w w' : Fs}
    {written : List Path} {e : Entry} (h : InPlace ssl libs state w e)
    (hb : Between watched w w' written) (htarget : e.target ∈ watched) (hebox : e.ebox ∈ watched)
    (hplaces : ∀ q ∈ written, w.entry e.target ≠ w.entry q)
    (heboxes : ∀ q ∈ written, w.entry q ≠ w.entry e.ebox ∧ w.entry q ≠ w.target e.ebox)
    (hstate : state'.get e.target = state.get e.target) : InPlace ssl libs state' w' e := by
  obtain ⟨bytes, stream, plain, stamp, record, hbytes, hparse, hdecrypts, hfile, hmode, hrecord,
    hstamp, hsha⟩ := h
  exact ⟨bytes, stream, plain, stamp, record, hb.ebox hebox hbytes heboxes, hparse, hdecrypts,
    hb.lookup htarget hfile hplaces, hmode, hstate.trans hrecord, hstamp, hsha⟩

/-- An entry that is up to date is in place. -/
private theorem inPlace_of_upToDate (hcollision : ∀ a b, libs.sha256 a = libs.sha256 b → a = b)
    {pid : UInt32} {args : ReconcileArgs} {entries : List Entry} {state : State} {fs : Fs}
    {e : Entry} (he : e ∈ entries) (hdeclared : declared e.target)
    (hseparate : Separate libs statePath pid entries fs) (hstate : StateIs libs fs statePath state)
    (hsound : Sound ssl libs content state) (hconsistent : Consistent content declared fs)
    (h : Examined libs args state fs e (.inl .upToDate)) : InPlace ssl libs state fs e := by
  cases h with
  | upToDate bytes data stamp record hebox hfile hrecord hstamp hsha =>
    obtain ⟨bytes', stream, hdigest, hparse, hdecrypts⟩ := hsound e.target record hrecord
    obtain rfl : bytes' = bytes := hcollision _ _ (hdigest.trans hsha)
    have hdata : content e.target.components record.fingerprint = data := by
      rw [hstamp]
      exact hconsistent _ hdeclared data stamp hfile
    rw [hdata] at hdecrypts
    refine ⟨bytes', stream, data, stamp, record, hebox, hparse, hdecrypts, hfile, ?_, hrecord,
      hstamp, hsha⟩
    refine hseparate.modes e he state bytes' data stamp hstate hebox hfile ?_
    simp only [classify, hrecord, hstamp, hsha, ne_eq, not_true_eq_false, decide_false,
      Bool.not_true, Bool.or_self, Bool.false_eq_true, if_false]

/-- Two entries with different plans are different ones. -/
private theorem ne_of_plans {R : Entry → Entry → Prop} {entries : List Entry}
    {plans : List (Outcome ⊕ Pending)} (hlength : entries.length = plans.length)
    (hentries : entries.Pairwise R) (hsymm : ∀ e f, R e f → R f e) {e f : Entry} {outcome : Outcome} {p : Pending} (he : (e, .inl outcome) ∈ entries.zip plans)
    (hf : (f, .inr p) ∈ entries.zip plans) : R e f := by
  have hzip : (entries.zip plans).Pairwise fun x y => R x.1 y.1 := by
    refine List.pairwise_map.mp ?_
    rw [List.map_fst_zip (Nat.le_of_eq hlength)]
    exact hentries
  have hsymm' : Std.Symm fun x y : Entry × (Outcome ⊕ Pending) => R x.1 y.1 :=
    ⟨fun x y h => hsymm _ _ h⟩
  exact hzip.forall he hf fun h => nomatch congrArg Prod.snd h

/-- A pending entry is the one its plan is for. -/
private theorem mem_zip_of_pending {args : ReconcileArgs} {entries : List Entry} {state : State} {fs : Fs}
    {plans : List (Outcome ⊕ Pending)} (hplans : List.Forall₂ (Examined libs args state fs) entries plans)
    {p : Pending} (hp : p ∈ plans.filterMap Sum.getRight?) : (p.entry, .inr p) ∈ entries.zip plans := by
  obtain ⟨plan, hplan, hright⟩ := List.mem_filterMap.mp hp
  obtain rfl : plan = .inr p := by
    rcases plan with outcome | p'
    · cases hright
    · exact congrArg Sum.inr (Option.some.inj hright)
  obtain ⟨e, hzip⟩ := exists_mem_zip_right hplans.length_eq hplan
  have hexamined : Examined libs args state fs e (.inr p) := List.forall₂_zip hplans hzip
  cases hexamined with
  | pending _ hentry _ _ _ _ => exact hentry ▸ hzip

/-- An entry that is not to be written, and has not failed, is up to date and in place. -/
private theorem inPlace_of_plan (hcollision : ∀ a b, libs.sha256 a = libs.sha256 b → a = b)
    {pid : UInt32} {args : ReconcileArgs} {entries : List Entry} {state : State} {fs : Fs}
    {plans : List (Outcome ⊕ Pending)} (hcheck : args.check = false)
    (hplans : List.Forall₂ (Examined libs args state fs) entries plans)
    (hdeclared : ∀ e ∈ entries, declared e.target) (hseparate : Separate libs statePath pid entries fs)
    (hstate : StateIs libs fs statePath state) (hsound : Sound ssl libs content state)
    (hconsistent : Consistent content declared fs) {e : Entry} {outcome : Outcome}
    (hzip : (e, .inl outcome) ∈ entries.zip plans) (hok : outcome.isFailed = false) :
    InPlace ssl libs state fs e := by
  obtain ⟨he, -⟩ := List.of_mem_zip hzip
  have hexamined : Examined libs args state fs e (.inl outcome) := List.forall₂_zip hplans hzip
  rcases outcome with _ | reason | reason | message
  · exact inPlace_of_upToDate ssl libs statePath content declared hcollision he
      (hdeclared e he) hseparate hstate hsound hconsistent hexamined
  · cases hexamined
  · cases hexamined with
    | wouldWrite _ hcheck' => exact nomatch hcheck.symm.trans hcheck'
  · cases hok

/-- Behind writes of which none failed every entry is in place, if those that were not to be written
were. -/
private theorem Results.inPlace {pid : UInt32} {args : ReconcileArgs} {entries : List Entry}
    {state : State} {plans : List (Outcome ⊕ Pending)} {results : List (Except String Bytes)} {w w' : World}
    {r : List Outcome × State}
    (h : Results (watchedBy statePath pid entries) ((plans.filterMap Sum.getRight?).zip results) state w r w')
    (hkeys : entries.Pairwise fun e f => e.target.components ≠ f.target.components)
    (hplans : List.Forall₂ (Examined libs args state w.fs) entries plans)
    (hseparate : Separate libs statePath pid entries w.fs)
    (hplain : List.Forall₂ (Plain ssl) (plans.filterMap Sum.getRight?) results)
    (hfresh : ∀ e outcome, (e, .inl outcome) ∈ entries.zip plans → InPlace ssl libs state w.fs e)
    (hdone : ∀ outcome ∈ r.1, outcome.isFailed = false) {e : Entry} (he : e ∈ entries) :
    InPlace ssl libs r.2 w'.fs e := by
  have hpending : ∀ x ∈ (plans.filterMap Sum.getRight?).zip results,
      (x.1.entry, .inr x.1) ∈ entries.zip plans :=
    fun x hx => mem_zip_of_pending libs hplans (List.of_mem_zip hx).1
  have heboxes : ∀ q ∈ ((plans.filterMap Sum.getRight?).zip results).map targetOf,
      w.fs.entry q ≠ w.fs.entry e.ebox ∧ w.fs.entry q ≠ w.fs.target e.ebox := by
    intro q hq
    obtain ⟨x, hx, rfl⟩ := List.mem_map.mp hq
    exact hseparate.eboxes _ (List.mem_cons_of_mem _
      (List.mem_map_of_mem (List.of_mem_zip (hpending x hx)).1)) e he
  obtain ⟨htarget, -, hebox⟩ := mem_watchedBy_target statePath pid he
  obtain ⟨plan, hzip⟩ := exists_mem_zip hplans.length_eq he
  rcases plan with outcome | p
  · -- An entry that was up to date is not touched.
    refine (hfresh e outcome hzip).frame ssl libs h.between htarget hebox ?_ heboxes ?_
    · intro q hq
      obtain ⟨x, hx, rfl⟩ := List.mem_map.mp hq
      exact ne_of_plans hplans.length_eq hseparate.places (fun _ _ h => Ne.symm h) hzip (hpending x hx)
    · refine h.others _ fun x hx => ?_
      exact (ne_of_plans hplans.length_eq hkeys (fun _ _ h => Ne.symm h) hzip (hpending x hx)).symm
  · -- A pending entry was written.
    have hp : p ∈ plans.filterMap Sum.getRight? :=
      List.mem_filterMap.mpr ⟨_, (List.of_mem_zip hzip).2, rfl⟩
    have hexamined : Examined libs args state w.fs e (.inr p) := List.forall₂_zip hplans hzip
    cases hexamined with
    | pending _ hentry hsha hbytes _ _ =>
      subst hentry
      obtain ⟨result, hx⟩ := exists_mem_zip hplain.length_eq hp
      obtain ⟨plain, stamp, hresult, hfile, hmode, hrecord⟩ := h.written hdone _ hx
      have hplainOf : Plain ssl p result := List.forall₂_zip hplain hx
      obtain ⟨stream, hparse, hdecrypts⟩ := hplainOf plain hresult
      exact ⟨p.bytes, stream, plain, stamp, _, h.between.ebox hebox hbytes heboxes, hparse,
        hdecrypts, hfile, hmode, hrecord, rfl, hsha⟩

/-- Writing what is to be written puts every entry in place, unless something fails. -/
private theorem writePending_spec (hcollision : ∀ a b, libs.sha256 a = libs.sha256 b → a = b)
    (pid : UInt32) {args : ReconcileArgs} {entries : List Entry} {state : State}
    {plans : List (Outcome ⊕ Pending)} {w : World} (hcheck : args.check = false)
    (hkeys : entries.Pairwise fun e f => e.target.components ≠ f.target.components)
    (hplans : List.Forall₂ (Examined libs args state w.fs) entries plans)
    (hdeclared : ∀ e ∈ entries, declared e.target)
    (hseparate : Separate libs statePath pid entries w.fs)
    (hstate : StateIs libs w.fs statePath state) (hsound : Sound ssl libs content state)
    (hconsistent : Consistent content declared w.fs) :
    Prog.Ensures (World.Step ssl) (writePending ssl pid (plans.filterMap Sum.getRight?) state)
      (fun r w' => r.1.length = (plans.filterMap Sum.getRight?).length ∧
        r.2.version = state.version ∧
        (∀ q, (∀ e ∈ entries, e.target.components ≠ q.components) → r.2.get q = state.get q) ∧
        (plans.filterMap Sum.getRight? = [] → r = ([], state) ∧ w' = w) ∧
        Between (watchedBy statePath pid entries) w.fs w'.fs (entries.map Entry.target) ∧
        ((∀ outcome, .inl outcome ∈ plans → outcome.isFailed = false) →
          (∀ outcome ∈ r.1, outcome.isFailed = false) →
            ∀ e ∈ entries, InPlace ssl libs r.2 w'.fs e)) w := by
  have hfresh : (∀ outcome, .inl outcome ∈ plans → outcome.isFailed = false) →
      ∀ e outcome, (e, .inl outcome) ∈ entries.zip plans → InPlace ssl libs state w.fs e :=
    fun hnone e outcome hzip => inPlace_of_plan ssl libs statePath content declared hcollision hcheck
      hplans hdeclared hseparate hstate hsound hconsistent hzip (hnone _ (List.of_mem_zip hzip).2)
  rw [writePending]
  split
  · next hempty =>
    have hnil : plans.filterMap Sum.getRight? = [] := List.isEmpty_iff.mp hempty
    refine ⟨by rw [hnil]; rfl, rfl, fun _ _ => rfl, fun _ => ⟨rfl, rfl⟩, Between.same _ w.fs _, ?_⟩
    intro hnone _ e he
    obtain ⟨plan, hzip⟩ := exists_mem_zip hplans.length_eq he
    rcases plan with outcome | p
    · exact hfresh hnone e outcome hzip
    · have hp : p ∈ plans.filterMap Sum.getRight? :=
        List.mem_filterMap.mpr ⟨_, (List.of_mem_zip hzip).2, rfl⟩
      rw [hnil] at hp
      cases hp
  · next hnonempty =>
    refine (decryptPending_spec ssl _ w).bind ?_
    rintro results w₁ ⟨hfs, -, hplain⟩
    have hresults : (plans.filterMap Sum.getRight?).length = results.length := hplain.length_eq
    rw [← hfs] at hplans hseparate hfresh ⊢
    have hmem : ∀ x ∈ (plans.filterMap Sum.getRight?).zip results, x.1.entry ∈ entries := fun x hx =>
      (List.of_mem_zip (mem_zip_of_pending libs hplans (List.of_mem_zip hx).1)).1
    -- The written entries are in the order of the manifest.
    have hsub : (((plans.filterMap Sum.getRight?).zip results).map fun x => x.1.entry).Sublist
        entries := by
      have hfst := List.map_fst_zip (Nat.le_of_eq hresults)
      have hentries := pending_sublist hplans
      rw [← hfst, List.map_map] at hentries
      exact hentries
    have hitemKeys : ((plans.filterMap Sum.getRight?).zip results).Pairwise
        fun x y => (targetOf x).components ≠ (targetOf y).components := by
      have hmapped := hkeys.sublist hsub
      rwa [List.pairwise_map] at hmapped
    have hitemPlaces : ((plans.filterMap Sum.getRight?).zip results).Pairwise
        fun x y => w₁.fs.entry (targetOf x) ≠ w₁.fs.entry (targetOf y) := by
      have hmapped := hseparate.places.sublist hsub
      rwa [List.pairwise_map] at hmapped
    refine (writeResults_spec ssl pid (watchedBy statePath pid entries) _ state w₁ ?_ ?_
      hitemKeys hitemPlaces).mono ?_
    · exact fun x hx => (mem_watchedBy_target statePath pid (hmem x hx)).1
    · intro q hq
      obtain ⟨x, hx, rfl⟩ := List.mem_map.mp hq
      exact hseparate.links _ (List.mem_cons_of_mem _ (List.mem_map_of_mem (hmem x hx)))
    · intro r w₂ hr
      refine ⟨?_, hr.version, ?_, ?_, hr.between.mono ?_, ?_⟩
      · rw [hr.length, List.length_zip, ← hresults, Nat.min_self]
      · exact fun q hq => hr.others q fun x hx => hq _ (hmem x hx)
      · intro hnil
        rw [hnil] at hnonempty
        exact absurd rfl hnonempty
      · intro q hq
        obtain ⟨x, hx, rfl⟩ := List.mem_map.mp hq
        exact List.mem_map_of_mem (hmem x hx)
      · intro hnone hdone e he
        exact hr.inPlace ssl libs statePath hkeys hplans hseparate hplain (hfresh hnone) hdone he

/-- A recorded path that is not declared is an orphan. -/
theorem exists_orphan {state : State} {entries : List Entry} {q : Path} {record : StateRecord}
    (hget : state.get q = some record) (hq : ∀ e ∈ entries, e.target.components ≠ q.components) :
    ∃ p ∈ orphansOf state entries, p.components = q.components := by
  obtain ⟨x, hx, -⟩ := Option.map_eq_some_iff.mp hget
  have hfound := List.find?_some hx
  have hkey : x.1.components = q.components := of_decide_eq_true hfound
  refine ⟨x.1, ?_, hkey⟩
  rw [orphansOf, List.mem_filter]
  refine ⟨List.mem_map_of_mem (List.mem_of_find?_eq_some hx), ?_⟩
  simp only [Bool.not_eq_true', List.any_eq_false, decide_eq_true_eq, hkey]
  exact hq

/-- A declared path is no orphan. -/
theorem not_orphan {state : State} {entries : List Entry} {e : Entry} (he : e ∈ entries) :
    ¬ ∃ p ∈ orphansOf state entries, p.components = e.target.components := by
  rintro ⟨p, hp, hkey⟩
  rw [orphansOf, List.mem_filter, hkey] at hp
  simp only [Bool.not_eq_true', List.any_eq_false, decide_eq_true_eq] at hp
  exact hp.2 e he rfl

theorem version_foldl_remove (orphans : List Path) (state : State) :
    (orphans.foldl State.remove state).version = state.version := by
  induction orphans generalizing state with
  | nil => rfl
  | cons p orphans ih => exact ih (state.remove p)

/-- Behind the release the records of the entries are there, and no others. -/
private theorem get_released {args : ReconcileArgs} {entries : List Entry} {state state' : State}
    (hcheck : args.check = false)
    (hothers : ∀ q, (∀ e ∈ entries, e.target.components ≠ q.components) → state'.get q = state.get q) :
    (∀ e ∈ entries, (releaseOrphans args (orphansOf state entries) state').get e.target =
      state'.get e.target) ∧
    ∀ q record, (releaseOrphans args (orphansOf state entries) state').get q = some record →
      ∃ e ∈ entries, e.target.components = q.components := by
  rw [releaseOrphans, if_neg (by rw [hcheck]; exact Bool.false_ne_true)]
  constructor
  · intro e he
    rw [State.get_foldl_remove, if_neg (not_orphan he)]
  · intro q record hrecord
    by_contra hnone
    have hq : ∀ e ∈ entries, e.target.components ≠ q.components := fun e he h =>
      hnone ⟨e, he, h⟩
    rw [State.get_foldl_remove] at hrecord
    split at hrecord
    · cases hrecord
    · next hno =>
      rw [hothers q hq] at hrecord
      exact hno (exists_orphan hrecord hq)

/-- Saving the state leaves what is in place behind the writes there. -/
private theorem InPlace.saved {pid : UInt32} {entries : List Entry} {state state' : State} {fs : Fs}
    {w₁ w₂ : Fs} {written : List Path} {e : Entry} (h : InPlace ssl libs state w₁ e) (he : e ∈ entries)
    (hseparate : Separate libs statePath pid entries fs)
    (hb : Between (watchedBy statePath pid entries) fs w₁ written)
    (hwritten : ∀ q ∈ written, q ∈ entries.map Entry.target)
    (hsaved : Between (watchedBy statePath pid entries) w₁ w₂ [statePath])
    (hget : state'.get e.target = state.get e.target) : InPlace ssl libs state' w₂ e := by
  obtain ⟨htarget, -, hebox⟩ := mem_watchedBy_target statePath pid he
  have hentry : ∀ p ∈ watchedBy statePath pid entries, w₁.entry p = fs.entry p :=
    fun p hp => (hb.ways p hp).entry
  have hsamePlace : w₁.target e.ebox = fs.target e.ebox := by
    refine hb.target hebox fun q hq => ?_
    exact (hseparate.eboxes q (List.mem_cons_of_mem _ (hwritten q hq)) e he).1.symm
  refine h.frame ssl libs hsaved htarget hebox ?_ ?_ hget
  · intro q hq
    obtain rfl := List.mem_singleton.mp hq
    rw [hentry _ htarget, hentry _ List.mem_cons_self]
    exact (hseparate.targets e he).1.1
  · intro q hq
    obtain rfl := List.mem_singleton.mp hq
    rw [hentry _ hebox, hentry _ List.mem_cons_self, hsamePlace]
    exact hseparate.eboxes _ List.mem_cons_self e he

/-- From the classified entries on, a run without failures converges. -/
private theorem settle_converges (hjson : ∀ state,
      libs.stateFromJson (libs.stateToJson state ++ "\n") = .ok state)
    (hcollision : ∀ a b, libs.sha256 a = libs.sha256 b → a = b)
    (pid : UInt32) {args : ReconcileArgs} {entries : List Entry} {state : State}
    {plans : List (Outcome ⊕ Pending)} {w : World} (hcheck : args.check = false)
    (hkeys : entries.Pairwise fun e f => e.target.components ≠ f.target.components)
    (hplans : List.Forall₂ (Examined libs args state w.fs) entries plans)
    (hdeclared : ∀ e ∈ entries, declared e.target)
    (hseparate : Separate libs statePath pid entries w.fs)
    (hstate : StateIs libs w.fs statePath state) (hsound : Sound ssl libs content state)
    (hconsistent : Consistent content declared w.fs) :
    Prog.Ensures (World.Step ssl) (settle ssl libs pid args statePath entries state plans)
      (fun settled w' => (∀ outcome ∈ settled.outcomes, outcome.isFailed = false) →
        settled.exit = 0 → Converged ssl libs statePath entries w'.fs) w := by
  rw [settle]
  refine (writePending_spec ssl libs statePath content declared hcollision pid hcheck hkeys hplans
    hdeclared hseparate hstate hsound hconsistent).bind ?_
  rintro ⟨written, state'⟩ w₁ ⟨hlength, hversion, hothers, hidle, hb, hplaced⟩
  dsimp only at hlength hversion hothers hidle hplaced
  obtain ⟨hget, hexact⟩ := get_released hcheck hothers
  refine (saveChanged_spec ssl libs pid statePath _ _ w₁).bind ?_
  rintro exit w₂ ⟨-, ⟨hsame, rfl⟩ | ⟨-, rfl, -⟩ | ⟨-, parent, fileName, r, -, hwrote, hok⟩⟩
  · -- Nothing is written at all.
    intro hnone _
    obtain ⟨hplansOk, hwrittenOk⟩ := not_failed_of_fillOutcomes hlength hnone
    rw [Bool.or_eq_false_iff, List.any_eq_false] at hsame
    have hnil : written = [] := by
      refine List.eq_nil_iff_forall_not_mem.mpr fun outcome ho => ?_
      have hfailed := hsame.1 outcome ho
      rw [hwrittenOk outcome ho] at hfailed
      exact hfailed rfl
    rw [hnil] at hlength
    obtain ⟨hr, rfl⟩ := hidle (List.length_eq_zero_iff.mp hlength.symm)
    obtain rfl : state' = state := congrArg Prod.snd hr
    have horphans : orphansOf state' entries = [] := by
      have hempty := hsame.2
      rw [hcheck] at hempty
      simpa using hempty
    have hsameState : releaseOrphans args (orphansOf state' entries) state' = state' := by
      rw [releaseOrphans, horphans]
      exact ite_self _
    rw [hsameState] at hexact
    exact ⟨state', hstate, hexact, hplaced hplansOk hwrittenOk⟩
  · exact fun _ hexit => by cases hexit
  · -- The state is saved, which leaves the targets in place.
    intro hnone hexit
    obtain ⟨fp, rfl⟩ := hok hexit
    have hlinks₁ : Unlinked (watchedBy statePath pid entries) w₁.fs [statePath] :=
      hb.unlinked (fun q hq => hseparate.links q (List.mem_singleton.mp hq ▸ List.mem_cons_self))
        fun q hq => List.mem_singleton.mp hq ▸ List.mem_cons_self
    obtain ⟨hplansOk, hwrittenOk⟩ := not_failed_of_fillOutcomes hlength hnone
    obtain ⟨hfound, -⟩ := hwrote.found (hlinks₁ _ List.mem_cons_self _ List.mem_cons_self)
    refine ⟨releaseOrphans args (orphansOf state entries) state', .inr ⟨_, fp, ?_, hjson _, ?_⟩,
      hexact, ?_⟩
    · rw [Fs.target_of_file hfound]
      exact hfound
    · rw [releaseOrphans, if_neg (by rw [hcheck]; exact Bool.false_ne_true), version_foldl_remove, hversion]
      rcases hstate with ⟨-, rfl⟩ | ⟨-, -, -, -, hcurrent⟩
      · rfl
      · exact hcurrent
    · exact fun e he => (hplaced hplansOk hwrittenOk e he).saved ssl libs statePath he hseparate hb
        (fun _ hq => hq) (hwrote.kept.between hlinks₁) (hget e he)

/-- A run that exits 0 converges. -/
private theorem reconcile_converges (hjson : ∀ state,
      libs.stateFromJson (libs.stateToJson state ++ "\n") = .ok state)
    (hcollision : ∀ a b, libs.sha256 a = libs.sha256 b → a = b)
    (pid : UInt32) {args : ReconcileArgs} {entries : List Entry} {w : World}
    (hcheck : args.check = false)
    (hkeys : entries.Pairwise fun e f => e.target.components ≠ f.target.components)
    (hdeclared : ∀ e ∈ entries, declared e.target)
    (hseparate : Separate libs statePath pid entries w.fs)
    (hfile : SoundFile ssl libs statePath content w.fs)
    (hconsistent : Consistent content declared w.fs) :
    Prog.Ensures (World.Step ssl) (reconcile ssl libs pid args statePath entries)
      (fun code w' => code = 0 → Converged ssl libs statePath entries w'.fs) w := by
  have hentries : Prog.Ensures (World.Step ssl)
      (reconcileEntries ssl libs pid args statePath entries)
      (fun r w' => (∀ code, r = .error code → code ≠ 0) ∧
        ∀ settled, r = .ok settled → (∀ outcome ∈ settled.outcomes, outcome.isFailed = false) →
          settled.exit = 0 → Converged ssl libs statePath entries w'.fs) w := by
    refine (loadState_spec ssl libs statePath w).bind ?_
    rintro r w' ⟨rfl, hload⟩
    rcases r with e | state
    · refine ⟨?_, fun _ h => by cases h⟩
      rintro _ ⟨⟩ h
      cases h
    have hstate := hload state rfl
    refine (examineAll_spec ssl libs args state entries w').bind ?_
    rintro plans w₁ ⟨rfl, hplans⟩
    refine (settle_converges ssl libs statePath content declared hjson hcollision pid hcheck hkeys
      hplans hdeclared hseparate hstate (hfile state hstate) hconsistent).bind ?_
    intro settled w₂ h
    refine ⟨(fun _ h => by cases h), ?_⟩
    rintro _ ⟨⟩
    exact h
  refine hentries.bind ?_
  rintro (code | settled) w' ⟨hfailed, h⟩
  · exact fun hcode => absurd hcode (hfailed code rfl)
  · simp only [Prog.op_bind, Prog.ensures_call]
    rintro (e | ⟨⟩) w'' rfl
    · exact fun hcode => by cases hcode
    · intro hcode
      change exitCode args settled.outcomes settled.exit = 0 at hcode
      rw [exitCode] at hcode
      split at hcode
      · cases hcode
      · next hok =>
        refine h settled rfl ?_ hcode
        rw [Bool.not_eq_true, Bool.or_eq_false_iff, List.any_eq_false] at hok
        exact fun outcome ho => Bool.not_eq_true _ ▸ hok.1 outcome ho

/-! ## The next run -/

/-- A failure has a reason: a file is not there, or is no text; reports are written. -/
def Faultless (w : World) : (op : BatchOp) → op.Ans → Prop
  | .fs (.read p), .error _ =>
    ∀ data stamp, w.fs.nodes (w.fs.target p) ≠ some (.file data stamp)
  | .fs (.readToString p), .error e =>
    (∀ text stamp, w.fs.nodes (w.fs.target p) ≠ some (.file (strBytes text) stamp)) ∧
      (w.fs.nodes (w.fs.target p) = none → e.notFound = true)
  | .fs (.lstat p), .error _ => w.fs.lookup p = none
  | .print _, .error _ => False
  | _, _ => True

/-- The steps of a run, in which nothing fails without a reason if it is a strict one. -/
def IdleStep (strict : Bool) (w : World) (op : BatchOp) (answer : op.Ans) (w' : World) : Prop :=
  World.Step ssl w op answer w' ∧ (strict = true → Faultless w op answer)

private theorem examine_idle (strict : Bool) (args : ReconcileArgs) {state : State} {e : Entry}
    {w : World} (h : InPlace ssl libs state w.fs e) :
    Prog.Ensures (IdleStep ssl strict) (examine libs args state e)
      (fun plan w' => w' = w ∧ (plan = .inl .upToDate ∨
        strict = false ∧ ∃ message, plan = .inl (.failed message))) w := by
  obtain ⟨bytes, stream, plain, stamp, record, ⟨stamp', hbytes⟩, -, -, hfile, -, hrecord, hstamp,
    hsha⟩ := h
  simp only [examine, inspectTarget, fsOp, Prog.op_bind, Prog.ensures_call]
  rintro (e' | bytes') w' ⟨hread, hfaultless⟩
  · obtain rfl := eq_of_looks ssl rfl hread
    refine ⟨rfl, .inr ⟨?_, _, rfl⟩⟩
    cases strict with
    | false => rfl
    | true => exact absurd hbytes (hfaultless rfl _ _)
  · obtain rfl := eq_of_looks ssl rfl hread
    obtain ⟨⟨-, stamp'', hbytes'⟩, -, -⟩ := hread
    obtain rfl : bytes = bytes' := by
      have hsame := hbytes.symm.trans hbytes'
      injection hsame with hsame
      injection hsame
    simp only [Prog.call_bind, Prog.ensures_call]
    rintro (e' | kind) w' ⟨hlstat, hfaultless⟩
    · obtain rfl := eq_of_looks ssl rfl hlstat
      obtain ⟨⟨-, habsent⟩, -, -⟩ := hlstat
      dsimp only
      split
      · next hnotFound => cases hfile.symm.trans (habsent hnotFound)
      · refine ⟨rfl, .inr ⟨?_, _, rfl⟩⟩
        cases strict with
        | false => rfl
        | true => cases hfile.symm.trans (hfaultless rfl)
    · obtain rfl := eq_of_looks ssl rfl hlstat
      obtain ⟨⟨-, node, hnode, hkind⟩, -, -⟩ := hlstat
      obtain rfl : .file plain stamp = node := Option.some.inj (hfile.symm.trans hnode)
      cases hkind
      have hfresh : classify (.file true stamp) (state.get e.target) (libs.sha256 bytes)
          (e.adopt || args.adopt) = .fresh := by
        simp only [classify, hrecord, hstamp, hsha, ne_eq, not_true_eq_false, decide_false,
          Bool.not_true, Bool.or_self, Bool.false_eq_true, if_false]
      simp only [Prog.pure_eq, Prog.ret_bind, hfresh]
      exact ⟨rfl, .inl rfl⟩

private theorem examineAll_idle (strict : Bool) (args : ReconcileArgs) {state : State}
    {entries : List Entry} {w : World} (h : ∀ e ∈ entries, InPlace ssl libs state w.fs e) :
    Prog.Ensures (IdleStep ssl strict) (examineAll libs args state entries)
      (fun plans w' => w' = w ∧ ∀ plan ∈ plans, plan = .inl .upToDate ∨
        strict = false ∧ ∃ message, plan = .inl (.failed message)) w := by
  induction entries with
  | nil => exact ⟨rfl, fun plan hplan => nomatch hplan⟩
  | cons e entries ih =>
    refine (examine_idle ssl libs strict args (h e List.mem_cons_self)).bind ?_
    rintro plan w' ⟨rfl, hplan⟩
    refine (ih fun f hf => h f (List.mem_cons_of_mem _ hf)).bind ?_
    rintro plans w' ⟨rfl, hplans⟩
    refine ⟨rfl, ?_⟩
    intro plan' hplan'
    rcases List.mem_cons.mp hplan' with rfl | hplan'
    · exact hplan
    · exact hplans plan' hplan'

private theorem loadState_idle (strict : Bool) {state : State} {w : World}
    (h : StateIs libs w.fs statePath state) :
    Prog.Ensures (IdleStep ssl strict) (loadState libs statePath)
      (fun r w' => w' = w ∧ (r = .ok state ∨ strict = false ∧ ∃ message, r = .error message)) w := by
  simp only [loadState, fsOp, Prog.op_bind, Prog.ensures_call]
  rintro (e | text) w' ⟨hread, hfaultless⟩
  · obtain rfl := eq_of_looks ssl rfl hread
    obtain ⟨⟨-, habsent⟩, -, -⟩ := hread
    dsimp only
    split
    · next hnotFound =>
      refine ⟨rfl, .inl ?_⟩
      rcases h with ⟨-, rfl⟩ | ⟨text, stamp, hfile, -⟩
      · rfl
      · cases (habsent hnotFound).symm.trans hfile
    · next hnotFound =>
      refine ⟨rfl, .inr ⟨?_, _, rfl⟩⟩
      cases strict with
      | false => rfl
      | true =>
        obtain ⟨hnofile, hnone⟩ := hfaultless rfl
        rcases h with ⟨habsent', -⟩ | ⟨text, stamp, hfile, -⟩
        · exact absurd (hnone habsent') hnotFound
        · exact absurd hfile (hnofile text stamp)
  · obtain rfl := eq_of_looks ssl rfl hread
    obtain ⟨⟨-, stamp, hfile⟩, -, -⟩ := hread
    rcases h with ⟨hnone, -⟩ | ⟨text', stamp', hfile', hjson, hversion⟩
    · cases hnone.symm.trans hfile
    · obtain rfl : text = text' := by
        have hsame := hfile.symm.trans hfile'
        injection hsame with hsame
        injection hsame with hsame
        exact strBytes_inj hsame
      simp only [hjson, hversion, ne_eq, not_true_eq_false, if_false]
      exact ⟨rfl, .inl rfl⟩

/-- Plans with nothing to write are their outcomes. -/
private theorem fillOutcomes_of_settled {plans : List (Outcome ⊕ Pending)}
    (h : ∀ plan ∈ plans, ∃ outcome, plan = .inl outcome) :
    plans.filterMap Sum.getRight? = [] ∧
      ∀ outcome ∈ fillOutcomes plans [], .inl outcome ∈ plans := by
  induction plans with
  | nil => exact ⟨rfl, fun _ h => nomatch h⟩
  | cons plan plans ih =>
    obtain ⟨outcome, rfl⟩ := h plan List.mem_cons_self
    obtain ⟨hnone, houtcomes⟩ := ih fun plan hplan => h plan (List.mem_cons_of_mem _ hplan)
    refine ⟨hnone, ?_⟩
    intro outcome' ho
    rcases List.mem_cons.mp ho with rfl | ho
    · exact List.mem_cons_self
    · exact List.mem_cons_of_mem _ (houtcomes outcome' ho)

/-- Without orphans and without anything to write, nothing happens. -/
private theorem settle_idle (strict : Bool) (pid : UInt32) (args : ReconcileArgs)
    {entries : List Entry} {state : State} {plans : List (Outcome ⊕ Pending)} (w : World)
    (horphans : orphansOf state entries = [])
    (hplans : ∀ plan ∈ plans, plan = .inl .upToDate ∨
      strict = false ∧ ∃ message, plan = .inl (.failed message)) :
    Prog.Ensures (IdleStep ssl strict) (settle ssl libs pid args statePath entries state plans)
      (fun settled w' => w' = w ∧ settled.exit = 0 ∧
        (strict = true → ∀ outcome ∈ settled.outcomes, outcome = .upToDate)) w := by
  have hsettled : ∀ plan ∈ plans, ∃ outcome, plan = .inl outcome := by
    intro plan hplan
    rcases hplans plan hplan with rfl | ⟨-, message, rfl⟩
    · exact ⟨_, rfl⟩
    · exact ⟨_, rfl⟩
  obtain ⟨hnone, houtcomes⟩ := fillOutcomes_of_settled hsettled
  rw [settle, hnone, horphans]
  simp only [writePending, List.isEmpty_nil, if_true, Prog.pure_eq, Prog.ret_bind, List.any_nil,
    Bool.false_or, Bool.not_true, Bool.and_false, saveChanged, Bool.false_eq_true, if_false]
  refine ⟨rfl, rfl, ?_⟩
  rintro rfl outcome ho
  rcases hplans _ (houtcomes outcome ho) with h | ⟨h, -⟩
  · exact Sum.inl.inj h
  · cases h

/-- A run over targets that are in place does nothing, and exits 0 if nothing fails. -/
private theorem reconcile_idle (strict : Bool) (pid : UInt32) (args : ReconcileArgs)
    {entries : List Entry} {w : World} (h : Converged ssl libs statePath entries w.fs) :
    Prog.Ensures (IdleStep ssl strict) (reconcile ssl libs pid args statePath entries)
      (fun code w' => w' = w ∧ (strict = true → code = 0)) w := by
  obtain ⟨state, hstate, hexact, hplaced⟩ := h
  have horphans : orphansOf state entries = [] := by
    refine List.eq_nil_iff_forall_not_mem.mpr fun p hp => ?_
    rw [orphansOf, List.mem_filter] at hp
    obtain ⟨hkey, hundeclared⟩ := hp
    obtain ⟨x, hx, rfl⟩ := List.mem_map.mp hkey
    have hget : ∃ record, state.get x.1 = some record := by
      rw [State.get]
      refine Option.isSome_iff_exists.mp ?_
      rw [Option.isSome_map, List.find?_isSome]
      exact ⟨x, hx, decide_eq_true rfl⟩
    obtain ⟨record, hget⟩ := hget
    obtain ⟨e, he, hcomponents⟩ := hexact x.1 record hget
    simp only [Bool.not_eq_true', List.any_eq_false, decide_eq_true_eq] at hundeclared
    exact hundeclared e he hcomponents
  have hentries : Prog.Ensures (IdleStep ssl strict)
      (reconcileEntries ssl libs pid args statePath entries)
      (fun r w' => w' = w ∧ (strict = true → ∃ settled, r = .ok settled ∧ settled.exit = 0 ∧
        ∀ outcome ∈ settled.outcomes, outcome = .upToDate)) w := by
    refine (loadState_idle ssl libs statePath strict hstate).bind ?_
    rintro r w' ⟨rfl, rfl | ⟨rfl, message, rfl⟩⟩
    · refine (examineAll_idle ssl libs strict args hplaced).bind ?_
      rintro plans w' ⟨rfl, hplans⟩
      refine (settle_idle ssl libs statePath strict pid args w' horphans hplans).bind ?_
      rintro settled w'' ⟨rfl, hexit, houtcomes⟩
      exact ⟨rfl, fun hstrict => ⟨settled, rfl, hexit, houtcomes hstrict⟩⟩
    · exact ⟨rfl, (fun h => by cases h)⟩
  refine hentries.bind ?_
  rintro (code | settled) w' ⟨rfl, hok⟩
  · refine ⟨rfl, fun hstrict => ?_⟩
    obtain ⟨settled, hr, -⟩ := hok hstrict
    cases hr
  · simp only [Prog.op_bind, Prog.ensures_call]
    rintro (e | ⟨⟩) w'' ⟨hprint, hfaultless⟩
    · obtain rfl : w'' = w' := hprint
      exact ⟨rfl, fun hstrict => absurd (hfaultless hstrict) id⟩
    · obtain rfl : w'' = w' := hprint
      refine ⟨rfl, fun hstrict => ?_⟩
      obtain ⟨_, ⟨⟩, hexit, houtcomes⟩ := hok hstrict
      rw [exitCode, if_neg, hexit]
      rw [Bool.not_eq_true, Bool.or_eq_false_iff, Bool.and_eq_false_iff, List.any_eq_false,
        List.any_eq_false]
      refine ⟨?_, .inr ?_⟩
      · intro outcome ho
        rw [houtcomes outcome ho]
        exact fun h => by cases h
      · intro outcome ho
        rw [houtcomes outcome ho]
        exact fun h => by cases h

/-- Some answer without a fault is always possible. -/
private theorem exists_idleStep (w : World) (op : BatchOp) :
    ∃ answer w', IdleStep ssl true w op answer w' := by
  -- An operation on files may fail, and reads answer with what is there.
  have hfs : ∀ op : FsOp, ∃ answer : op.Ans, w.fs.Step op answer w.fs ∧
      Faultless w (.fs op) answer := by
    intro op
    cases op with
    | read p =>
      by_cases hfile : ∃ data stamp, w.fs.nodes (w.fs.target p) = some (.file data stamp)
      · obtain ⟨data, stamp, hfile⟩ := hfile
        exact ⟨.ok data, ⟨rfl, stamp, hfile⟩, trivial⟩
      · exact ⟨.error ⟨false, ""⟩, rfl, fun data stamp h => hfile ⟨data, stamp, h⟩⟩
    | readToString p =>
      by_cases hfile : ∃ text stamp, w.fs.nodes (w.fs.target p) = some (.file (strBytes text) stamp)
      · obtain ⟨text, stamp, hfile⟩ := hfile
        exact ⟨.ok text, ⟨rfl, stamp, hfile⟩, trivial⟩
      · have hnofile : ∀ text stamp,
            w.fs.nodes (w.fs.target p) ≠ some (.file (strBytes text) stamp) :=
          fun text stamp h => hfile ⟨text, stamp, h⟩
        by_cases hnone : w.fs.nodes (w.fs.target p) = none
        · exact ⟨.error ⟨true, ""⟩, ⟨rfl, fun _ => hnone⟩, hnofile, fun _ => rfl⟩
        · exact ⟨.error ⟨false, ""⟩, ⟨rfl, fun h => nomatch h⟩, hnofile,
            fun h => absurd h hnone⟩
    | lstat p =>
      rcases hnode : w.fs.lookup p with _ | node
      · exact ⟨.error ⟨true, ""⟩, ⟨rfl, fun _ => hnode⟩, hnode⟩
      · have hkind : ∃ kind, node.HasKind kind := by
          cases node with
          | dir => exact ⟨_, .dir ⟨0, 0, 0, 0, 0, 0⟩⟩
          | file data stamp => exact ⟨_, .file data stamp⟩
          | other stamp => exact ⟨_, .other stamp⟩
        obtain ⟨kind, hkind⟩ := hkind
        exact ⟨.ok kind, ⟨rfl, node, hnode, hkind⟩, trivial⟩
    | isFile p => exact ⟨false, rfl, trivial⟩
    | modified p => exact ⟨.error ⟨false, ""⟩, rfl, trivial⟩
    | createDirAll p mode =>
      exact ⟨.error ⟨false, ""⟩, Fs.MakesDirs.refl w.fs _, trivial⟩
    | setPermissions p mode => exact ⟨.error ⟨false, ""⟩, rfl, trivial⟩
    | createNew p => exact ⟨.error ⟨false, ""⟩, rfl, trivial⟩
    | writeAll p data => exact ⟨.error ⟨false, ""⟩, .inl rfl, trivial⟩
    | syncAll p => exact ⟨.error ⟨false, ""⟩, rfl, trivial⟩
    | removeFile p => exact ⟨.error ⟨false, ""⟩, ⟨rfl, fun h => nomatch h⟩, trivial⟩
    | rename p q => exact ⟨.error ⟨false, ""⟩, rfl, trivial⟩
  cases op with
  | fs op =>
    obtain ⟨answer, hstep, hfaultless⟩ := hfs op
    exact ⟨answer, { w with log := if mutates op then w.log ++ [op] else w.log },
      ⟨hstep, rfl, rfl⟩, fun _ => hfaultless⟩
  | sigintCaught => exact ⟨false, w, rfl, fun _ => trivial⟩
  | emit r => exact ⟨.ok (), w, rfl, fun _ => trivial⟩
  | print lines => exact ⟨.ok (), w, rfl, fun _ => trivial⟩
  | openBackend targets names => exact ⟨.error "", _, rfl, fun _ => trivial⟩
  | decrypt stream bytes =>
    exact ⟨.error { diagnostic := { kind := .internal, message := "" } }, _,
      ⟨rfl, fun plain h => nomatch h⟩, fun _ => trivial⟩
  | endSession => exact ⟨none, w, rfl, fun _ => trivial⟩

/-- In every history, a run without `--check` that exits 0 over separate targets leaves them in
place and recorded. The next run over the same entries changes nothing and decrypts nothing, and
exits 0 if nothing fails; and there is such a run. -/
theorem reconcile_converged
    (hjson : ∀ state, libs.stateFromJson (libs.stateToJson state ++ "\n") = .ok state)
    (hcollision : ∀ a b, libs.sha256 a = libs.sha256 b → a = b)
    {w w' : World} (hw : Reached ssl libs statePath content declared w)
    {pid : UInt32} {args : ReconcileArgs} {text : String} {entries : List Entry}
    (hmanifest : parseManifest libs text = .ok entries)
    (hdeclared : ∀ e ∈ entries, declared e.target) (hcheck : args.check = false)
    (hseparate : Separate libs statePath pid entries w.fs)
    (hrun : Prog.Exec (fun w op answer w' =>
        World.Step ssl w op answer w' ∧ Consistent content declared w'.fs)
      (reconcile ssl libs pid args statePath entries) w 0 w') :
    Converged ssl libs statePath entries w'.fs ∧
      ∀ pid' args',
        (∀ code w'', Prog.Exec (World.Step ssl)
          (reconcile ssl libs pid' args' statePath entries) w' code w'' → w'' = w') ∧
        (∀ code w'', Prog.Exec (IdleStep ssl true)
          (reconcile ssl libs pid' args' statePath entries) w' code w'' → code = 0) ∧
        ∃ w'', Prog.Exec (IdleStep ssl true)
          (reconcile ssl libs pid' args' statePath entries) w' 0 w'' := by
  have hkeys : entries.Pairwise fun e f => e.target.components ≠ f.target.components := by
    rw [parseManifest] at hmanifest
    split at hmanifest
    · cases hmanifest
    · split at hmanifest
      · cases hmanifest
      · exact (parseEntries_pairwise hmanifest).2
  obtain ⟨hfile, hconsistent⟩ := hw.sound ssl libs statePath content declared hjson
  have hconverged : Converged ssl libs statePath entries w'.fs :=
    Prog.ensures_iff.mp (reconcile_converges ssl libs statePath content declared hjson hcollision
      pid hcheck hkeys hdeclared hseparate hfile hconsistent) 0 w'
      (hrun.mono fun _ _ _ _ h => h.1) rfl
  refine ⟨hconverged, fun pid' args' => ⟨?_, ?_, ?_⟩⟩
  · intro code w'' hnext
    exact (Prog.ensures_iff.mp (reconcile_idle ssl libs statePath false pid' args' hconverged) code
      w'' (hnext.mono fun _ _ _ _ h => ⟨h, fun h => nomatch h⟩)).1
  · intro code w'' hnext
    exact (Prog.ensures_iff.mp (reconcile_idle ssl libs statePath true pid' args' hconverged) code
      w'' hnext).2 rfl
  · obtain ⟨code, w'', hnext⟩ := Prog.exists_exec (exists_idleStep ssl)
      (reconcile ssl libs pid' args' statePath entries) w'
    obtain rfl := (Prog.ensures_iff.mp (reconcile_idle ssl libs statePath true pid' args'
      hconverged) code w'' hnext).2 rfl
    exact ⟨w'', hnext⟩

end

/-! ## Sample libraries -/

private theorem countable_string : Countable String :=
  have : Countable Char := Function.Injective.countable (f := Char.toNat) fun _ _ => Char.toNat_inj.mp
  Function.Injective.countable (f := String.toList) fun _ _ => String.toList_inj.mp

private theorem countable_fingerprint : Countable Fingerprint := by
  refine Function.Injective.countable (f := fun s : Fingerprint => (s.dev.toNat, s.ino.toNat,
    s.size.toNat, s.mode.toNat, s.mtimeSec.toInt, s.mtimeNsec.toInt)) ?_
  rintro ⟨a₁, a₂, a₃, a₄, a₅, a₆⟩ ⟨b₁, b₂, b₃, b₄, b₅, b₆⟩ h
  simp only [Prod.mk.injEq, UInt64.toNat_inj, UInt32.toNat_inj, Int64.toInt_inj] at h
  simpa using h

private theorem countable_state : Countable State := by
  have : Countable String := countable_string
  have : Countable Fingerprint := countable_fingerprint
  refine Function.Injective.countable (f := fun s : State => (s.version.toNat,
    s.entries.map fun x => (x.1.text, x.2.name, x.2.eboxSha256, x.2.fingerprint))) ?_
  rintro ⟨v, entries⟩ ⟨v', entries'⟩ h
  simp only [Prod.mk.injEq, UInt32.toNat_inj] at h
  obtain ⟨rfl, hentries⟩ := h
  have hinj : Function.Injective fun x : Path × StateRecord =>
      (x.1.text, x.2.name, x.2.eboxSha256, x.2.fingerprint) := by
    rintro ⟨⟨p⟩, ⟨n, s, fp⟩⟩ ⟨⟨p'⟩, ⟨n', s', fp'⟩⟩ heq
    simpa using heq
  rw [List.map_injective_iff.mpr hinj hentries]

private theorem countable_bytes : Countable Bytes :=
  have : Countable UInt8 := Function.Injective.countable (f := UInt8.toNat) fun _ _ => UInt8.toNat_inj.mp
  inferInstanceAs (Countable (List UInt8))

/-- A text for every value, one of which is given. -/
noncomputable def writtenAs {α : Type} [Countable α] [DecidableEq α] (known : α) (text : String) (a : α) : String :=
  if a = known then text
  else String.ofList (List.replicate (Classical.choose (exists_injective_nat α) a) 'x')

private theorem writtenAs_known {α : Type} [Countable α] [DecidableEq α] (known : α)
    (text : String) : writtenAs known text known = text := if_pos rfl

private theorem writtenAs_injective {α : Type} [Countable α] [DecidableEq α] (known : α) {text : String}
    (htext : 'x' ≠ text.toList.headD 'x') {a b : α}
    (h : writtenAs known text a = writtenAs known text b) : a = b := by
  have hother : ∀ n, text ≠ String.ofList (List.replicate n 'x') := by
    rintro n rfl
    apply htext
    cases n <;> simp [List.replicate]
  unfold writtenAs at h
  split at h
  · next ha =>
    split at h
    · next hb => rw [ha, hb]
    · exact absurd h (hother _)
  · split at h
    · exact absurd h.symm (hother _)
    · have hlist := congrArg (fun s => s.toList.length) h
      simp only [String.toList_ofList, List.length_replicate] at hlist
      exact Classical.choose_spec (exists_injective_nat α) hlist


/-! ## A changed mode -/

def sampleTarget : Path := ⟨"/t/a"⟩

def sampleStatePath : Path := ⟨"/s/state.json"⟩

def sampleDoc (mode : String) : ManifestDoc where
  version := 1
  entries := [{ name := "a", ebox := ⟨"/e/a.ebox"⟩, target := sampleTarget, mode := some mode,
                adopt := false }]

/-- A manifest of one entry with a mode. -/
def sampleManifest (mode : String) : String :=
  "\x7b\"version\":1,\"entries\":[\x7b\"name\":\"a\",\"ebox\":\"/e/a.ebox\"," ++
    "\"target\":\"/t/a\",\"mode\":\"" ++ mode ++ "\"\x7d]\x7d"

def sampleEntry (mode : UInt32) : Entry :=
  { name := "a", ebox := ⟨"/e/a.ebox"⟩, target := sampleTarget, mode, adopt := false }

/-- An ebox of the sample card with two bytes in it. -/
@[irreducible]
def sampleEboxBytes : Bytes := sampleStream.encoding ++ sampleFrame (strBytes "hi")

def sampleDigest : String := "90f57766069ff204170644ff53984de8d64673497316019686de392f87cd99c9"

def sampleStamp (ino : UInt64) (size : UInt64) : Fingerprint :=
  { dev := 1, ino, size, mode := 0o600, mtimeSec := 1, mtimeNsec := 0 }

def sampleSaved : State :=
  State.empty.insert sampleTarget
    { name := "a", eboxSha256 := sampleDigest, fingerprint := sampleStamp 8 2 }

def sampleJson : String :=
  String.ofList ('\x7b' ::
    ("\n  \"version\": 1,\n  \"entries\": \x7b\n    \"/t/a\": \x7b\n      \"name\": \"a\",\n" ++
    "      \"ebox_sha256\": \"" ++ sampleDigest ++ "\",\n      \"fingerprint\": \x7b\n" ++
    "        \"dev\": 1,\n        \"ino\": 8,\n        \"size\": 2,\n        \"mode\": 384,\n" ++
    "        \"mtime_sec\": 1,\n        \"mtime_nsec\": 0\n      \x7d\n    \x7d\n  \x7d\n\x7d").toList)

open Classical in
/-- Libraries that read and write the texts of the sample. -/
noncomputable def sampleLibs : Libs where
  manifestFromJson text :=
    if text = sampleManifest "0600" then .ok (sampleDoc "0600")
    else if text = sampleManifest "0644" then .ok (sampleDoc "0644")
    else .error "expected value at line 1 column 1"
  stateToJson := @writtenAs _ countable_state _ sampleSaved sampleJson
  stateFromJson text :=
    if h : ∃ state, @writtenAs _ countable_state _ sampleSaved sampleJson state ++ "\n" = text then
      .ok h.choose
    else .error "expected value at line 1 column 1"
  stringToJson text := "\"" ++ text ++ "\""
  sha256 := @writtenAs _ countable_bytes _ sampleEboxBytes sampleDigest

theorem sampleLibs_json (state : State) :
    sampleLibs.stateFromJson (sampleLibs.stateToJson state ++ "\n") = .ok state := by
  have hthere : ∃ s, @writtenAs _ countable_state _ sampleSaved sampleJson s ++ "\n" =
      sampleLibs.stateToJson state ++ "\n" := ⟨state, rfl⟩
  have hread : sampleLibs.stateFromJson (sampleLibs.stateToJson state ++ "\n") =
      .ok hthere.choose := dif_pos hthere
  rw [hread]
  have hsame := String.append_left_inj _ |>.mp hthere.choose_spec
  have hhead : 'x' ≠ sampleJson.toList.headD 'x' := by
    have hlist : ∀ rest, (String.ofList ('\x7b' :: rest)).toList.headD 'x' = '\x7b' := by
      intro rest
      rw [String.toList_ofList]
      rfl
    exact fun h => absurd (h.trans (hlist _)) (by decide)
  exact congrArg _ (@writtenAs_injective _ countable_state _ _ _ hhead _ _ hsame)

theorem sha256_sampleEbox : sampleLibs.sha256 sampleEboxBytes = sampleDigest :=
  @writtenAs_known _ countable_bytes _ _ _

private theorem sampleLibs_sha256 {a b : Bytes} (h : sampleLibs.sha256 a = sampleLibs.sha256 b) :
    a = b :=
  @writtenAs_injective _ countable_bytes _ _ _ (by decide) _ _ h

private theorem parseManifest_sample :
    parseManifest sampleLibs (sampleManifest "0600") = .ok [sampleEntry 0o600] ∧
      parseManifest sampleLibs (sampleManifest "0644") = .ok [sampleEntry 0o644] := by
  have hfirst : sampleLibs.manifestFromJson (sampleManifest "0600") = .ok (sampleDoc "0600") := by
    simp only [sampleLibs, if_true]
  have hother : sampleManifest "0644" ≠ sampleManifest "0600" := by
    intro h
    exact absurd ((String.append_right_inj _).mp ((String.append_left_inj _).mp h)) (by decide)
  have hsecond : sampleLibs.manifestFromJson (sampleManifest "0644") = .ok (sampleDoc "0644") := by
    simp only [sampleLibs, if_neg hother, if_true]
  constructor
  · rw [parseManifest, hfirst]
    rfl
  · rw [parseManifest, hsecond]
    rfl

section

variable {Scalar Point Rng : Type} (ssl : OpenSsl Scalar Point Rng)
  (content : List Component → Fingerprint → Bytes) (declared : Path → Prop)

/-- The world after an operation that leads to a tree. -/
def World.after (w : World) (fs : Fs) (op : FsOp) : World where
  fs := fs
  unlocks := w.unlocks
  log := if mutates op then w.log ++ [op] else w.log

/-- A step of the tree is one of the world. -/
private theorem World.step_after {w : World} {op : FsOp} {answer : op.Ans} {fs : Fs}
    (h : Fs.Step w.fs op answer fs) (hfs : Consistent content declared fs) :
    World.Step ssl w (.fs op) answer (w.after fs op) ∧
      Consistent content declared (w.after fs op).fs :=
  ⟨⟨h, rfl, rfl⟩, hfs⟩

/-- Writing a file that is not there can succeed. -/
private theorem exec_writeAtomically (pid : UInt32) {path parent : Path} {fileName : String}
    (contents : Bytes) (stamp : Fingerprint) (w : World)
    (hwritable : Writable path parent fileName) (htmp : w.fs.lookup (tmpOf pid path) = none)
    (hpath : w.fs.lookup path = none) (hne : w.fs.entry path ≠ w.fs.entry (tmpOf pid path))
    (hw : ∀ node, Consistent content declared (w.fs.set (w.fs.entry (tmpOf pid path)) node))
    (hwritten : Consistent content declared
      (w.fs.set (w.fs.entry path) (some (.file contents stamp)))) :
    ∃ log, Prog.Exec (fun w op answer w' =>
        World.Step ssl w op answer w' ∧ Consistent content declared w'.fs)
      (writeAtomically pid path contents stamp.mode) w (.ok stamp)
      { fs := w.fs.set (w.fs.entry path) (some (.file contents stamp)), unlocks := w.unlocks,
        log } := by
  have hstart : Consistent content declared w.fs := by
    have h := hw none
    rwa [Fs.set_of_nodes htmp] at h
  rw [tmpOf_of_writable hwritable] at htmp hne hw
  have hfound : ∀ node, (w.fs.set (w.fs.entry (tmpPath pid parent fileName)) node).lookup
      (tmpPath pid parent fileName) = node := fun node => Fs.lookup_set_self w.fs _ node
  have hgone : (w.fs.set (w.fs.entry (tmpPath pid parent fileName))
      (some (.file contents stamp))).set (w.fs.entry (tmpPath pid parent fileName)) none = w.fs :=
    (Fs.set_set w.fs _ _ _).trans (Fs.set_of_nodes htmp)
  have hreplaces : Fs.Replaces
      ((w.fs.set (w.fs.entry (tmpPath pid parent fileName)) (some (.file contents stamp))).set
        (w.fs.entry (tmpPath pid parent fileName)) none)
      (w.fs.set (w.fs.entry path) (some (.file contents stamp))) (w.fs.entry path)
      (some (.file contents stamp)) := by
    rw [hgone]
    exact ⟨rfl, fun p _ => ⟨rfl, rfl, rfl⟩⟩
  refine ⟨w.log ++ [.createDirAll parent (some 0o700)] ++ [.createNew (tmpPath pid parent fileName)]
    ++ [.writeAll (tmpPath pid parent fileName) contents]
    ++ [.setPermissions (tmpPath pid parent fileName) stamp.mode]
    ++ [.rename (tmpPath pid parent fileName) path], ?_⟩
  simp only [writeAtomically, hwritable.1, hwritable.2, fsOp, Prog.op_bind]
  refine .answered (.ok ()) _
    (World.step_after ssl content declared (Fs.MakesDirs.refl w.fs _) hstart) ?_
  refine .answered (.ok ()) _
    (World.step_after ssl content declared ⟨htmp, stamp, rfl⟩ (hw _)) ?_
  refine .answered (.ok ()) _ (World.step_after ssl content declared
    ⟨[], stamp, stamp, hfound _, rfl, (Fs.set_set w.fs _ _ _).symm⟩ (hw _)) ?_
  refine .answered (.ok ()) _ (World.step_after ssl content declared
    (.inl ⟨contents, stamp, stamp, hfound _, rfl, (Fs.set_set w.fs _ _ _).symm⟩) (hw _)) ?_
  refine .answered (.ok ()) _ (World.step_after ssl content declared rfl (hw _)) ?_
  refine .answered (.ok ()) _ (World.step_after ssl content declared
    ⟨_, hfound _, (fun h => by cases h), ?_, ?_⟩ hwritten) ?_
  · intro hdir
    cases ((Function.update_of_ne hne _ _).trans hpath).symm.trans hdir
  · exact hreplaces
  refine .answered (.ok (.file true stamp)) _ (World.step_after ssl content declared
    ⟨rfl, _, Fs.lookup_set_self w.fs path _, .file _ _⟩ hwritten) ?_
  exact .ret _ _

end

/-- A tree with an ebox in it. -/
def treeWithEbox (bytes : Bytes) : Fs where
  nodes l :=
    if l = ["e", "a.ebox"] then some (.file bytes (sampleStamp 7 396))
    else if l ∈ [[], ["e"], ["s"], ["t"]] then some .dir
    else none
  entry := locate []
  link := locate []
  through _ _ := False

/-- The tree with the target written. -/
def treeWithTarget (bytes : Bytes) : Fs :=
  (treeWithEbox bytes).set (locate [] sampleTarget)
    (some (.file (strBytes "hi") (sampleStamp 8 2)))

/-- The tree with the state saved. -/
noncomputable def treeWithState (bytes : Bytes) : Fs :=
  (treeWithTarget bytes).set (locate [] sampleStatePath)
    (some (.file (strBytes (sampleLibs.stateToJson sampleSaved ++ "\n")) (sampleStamp 9 300)))

def sampleReconcileArgs : ReconcileArgs := { check := false, adopt := false, verbose := false }

/-- Only the target is declared. -/
def sampleDeclared (p : Path) : Prop := p = sampleTarget

/-- The target always holds the plaintext. -/
def sampleContent (_ : List Component) (_ : Fingerprint) : Bytes := strBytes "hi"

private theorem consistent_sample {fs : Fs} (h : ∀ data stamp, fs.lookup sampleTarget =
    some (.file data stamp) → data = strBytes "hi") :
    Consistent sampleContent sampleDeclared fs := by
  rintro p rfl data stamp hfile
  exact (h data stamp hfile).symm

/-- The steps of the sample runs. -/
abbrev SampleStep (w : World) (op : BatchOp) (answer : op.Ans) (w' : World) : Prop :=
  World.Step OpenSsl.sample w op answer w' ∧ Consistent sampleContent sampleDeclared w'.fs

section

variable {bytes : Bytes} {stream : EboxStream} {targets : List RecipientTarget}
  (hparse : EboxStream.fromBytes bytes = .ok stream)
  (htargets : primaryPartTargets OpenSsl.sample stream = .ok targets)
  (hdecrypts : Decrypts OpenSsl.sample stream bytes (strBytes "hi"))
  (hsha : sampleLibs.sha256 bytes = sampleDigest)

/-- The entry of the first run, before it is written. -/
private def samplePending (bytes : Bytes) : Pending where
  entry := sampleEntry 0o600
  eboxSha256 := sampleDigest
  bytes := bytes
  reason := .missing

include hparse htargets hdecrypts in
private theorem exec_decrypt (w : World) (hw : Consistent sampleContent sampleDeclared w.fs) :
    Prog.Exec SampleStep (decryptPending OpenSsl.sample [samplePending bytes]) w
      [.ok (strBytes "hi")] { w with unlocks := w.unlocks + 1 + 1 } := by
  have hparsed : parsePending (samplePending bytes) = (samplePending bytes, .ok stream) := by
    simp only [parsePending, samplePending, hparse]
  simp only [decryptPending, List.map_cons, List.map_nil, hparsed, List.filterMap_cons,
    List.filterMap_nil, Except.toOption, Option.map_some, htargets]
  refine .answered (.ok ()) _ ⟨rfl, hw⟩ ?_
  refine .answered (.ok (strBytes "hi")) _ ⟨⟨rfl, ?_⟩, hw⟩ ?_
  · rintro plain ⟨⟩
    exact hdecrypts
  refine .answered none _ ⟨rfl, hw⟩ ?_
  exact .ret _ _

include hsha in
/-- The first run finds nothing, and has one entry to write. -/
private theorem exec_examine (w : World) (hw : w.fs = treeWithEbox bytes) :
    Prog.Exec SampleStep (loadState sampleLibs sampleStatePath) w (.ok State.empty) w ∧
      Prog.Exec SampleStep
        (examineAll sampleLibs sampleReconcileArgs State.empty [sampleEntry 0o600]) w
        [.inr (samplePending bytes)] w := by
  obtain ⟨fs, unlocks, log⟩ := w
  cases hw
  have hstart : Consistent sampleContent sampleDeclared (treeWithEbox bytes) :=
    consistent_sample fun data stamp h => nomatch h
  constructor
  · refine .answered (.error ⟨true, ""⟩) _ ⟨⟨⟨rfl, fun _ => rfl⟩, rfl, rfl⟩, hstart⟩ ?_
    exact .ret _ _
  · refine .answered (.ok bytes) _ ⟨⟨⟨rfl, _, rfl⟩, rfl, rfl⟩, hstart⟩ ?_
    refine .answered (.error ⟨true, ""⟩) _ ⟨⟨⟨rfl, fun _ => rfl⟩, rfl, rfl⟩, hstart⟩ ?_
    rw [samplePending, ← hsha]
    exact .ret _ _

include hparse htargets hdecrypts hsha in
/-- The first run writes the target and saves the state. -/
private theorem exec_first : ∃ w', w'.fs = treeWithState bytes ∧
    Prog.Exec SampleStep
      (reconcile OpenSsl.sample sampleLibs 7 sampleReconcileArgs sampleStatePath
        [sampleEntry 0o600])
      { fs := treeWithEbox bytes, unlocks := 0, log := [] } 0 w' := by
  have hstart : Consistent sampleContent sampleDeclared (treeWithEbox bytes) :=
    consistent_sample fun data stamp h => nomatch h
  obtain ⟨hload, hexamine⟩ := exec_examine hsha { fs := treeWithEbox bytes, unlocks := 0, log := [] } rfl
  have hplain : ∀ data stamp, some (.file (strBytes "hi") (sampleStamp 8 2)) =
      some (Node.file data stamp) → data = strBytes "hi" := by
    rintro data stamp ⟨⟩
    rfl
  obtain ⟨log, hwrite⟩ := exec_writeAtomically OpenSsl.sample sampleContent sampleDeclared 7
    (strBytes "hi") (sampleStamp 8 2) { fs := treeWithEbox bytes, unlocks := 2, log := [] }
    (show Writable sampleTarget ⟨"/t"⟩ "a" from ⟨rfl, rfl⟩) rfl rfl
    (show locate [] sampleTarget ≠ locate [] (tmpOf 7 sampleTarget) by decide)
    (fun node => consistent_sample fun data stamp h => nomatch h)
    (consistent_sample hplain)
  obtain ⟨log', hsave⟩ := exec_writeAtomically OpenSsl.sample sampleContent sampleDeclared 7
    (strBytes (sampleLibs.stateToJson sampleSaved ++ "\n")) (sampleStamp 9 300)
    { fs := treeWithTarget bytes, unlocks := 2, log }
    (show Writable sampleStatePath ⟨"/s"⟩ "state.json" from ⟨rfl, rfl⟩) rfl rfl
    (show locate [] sampleStatePath ≠ locate [] (tmpOf 7 sampleStatePath) by decide)
    (fun node => consistent_sample hplain) (consistent_sample hplain)
  have hpending : Prog.Exec SampleStep
      (writePending OpenSsl.sample 7 [samplePending bytes] State.empty)
      { fs := treeWithEbox bytes, unlocks := 0, log := [] } ([.wrote .missing], sampleSaved)
      { fs := treeWithTarget bytes, unlocks := 2, log } := by
    refine (exec_decrypt hparse htargets hdecrypts _ hstart).bind ?_
    refine hwrite.bind ?_
    exact .ret _ _
  have hsaved : Prog.Exec SampleStep
      (saveChanged sampleLibs 7 sampleStatePath sampleSaved true)
      { fs := treeWithTarget bytes, unlocks := 2, log } 0
      { fs := treeWithState bytes, unlocks := 2, log := log' } := by
    have hstate : Prog.Exec SampleStep (saveState sampleLibs 7 sampleStatePath sampleSaved)
        { fs := treeWithTarget bytes, unlocks := 2, log } (.ok ())
        { fs := treeWithState bytes, unlocks := 2, log := log' } := by
      refine hsave.bind ?_
      exact .ret _ _
    refine hstate.bind ?_
    exact .ret _ _
  refine ⟨{ fs := treeWithState bytes, unlocks := 2, log := log' }, rfl, ?_⟩
  have hentries : Prog.Exec SampleStep
      (reconcileEntries OpenSsl.sample sampleLibs 7 sampleReconcileArgs sampleStatePath
        [sampleEntry 0o600])
      { fs := treeWithEbox bytes, unlocks := 0, log := [] }
      (.ok { outcomes := [.wrote .missing], orphans := [], state := sampleSaved, exit := 0 })
      { fs := treeWithState bytes, unlocks := 2, log := log' } := by
    refine hload.bind ?_
    refine hexamine.bind ?_
    refine Prog.Exec.bind (hpending.bind (hsaved.bind (.ret _ _))) ?_
    exact .ret _ _
  refine hentries.bind ?_
  refine .answered (.ok ()) _ ⟨rfl, consistent_sample hplain⟩ ?_
  exact .ret _ _

include hsha in
/-- The second run, with another mode, finds the target up to date. -/
theorem exec_second (w : World) (hw : w.fs = treeWithState bytes) :
    Prog.Exec SampleStep
      (reconcile OpenSsl.sample sampleLibs 7 sampleReconcileArgs sampleStatePath
        [sampleEntry 0o644]) w 0 w := by
  obtain ⟨fs, unlocks, log⟩ := w
  cases hw
  have hconsistent : Consistent sampleContent sampleDeclared (treeWithState bytes) := by
    refine consistent_sample ?_
    rintro data stamp ⟨⟩
    rfl
  have hload : Prog.Exec SampleStep (loadState sampleLibs sampleStatePath)
      { fs := treeWithState bytes, unlocks, log } (.ok sampleSaved)
      { fs := treeWithState bytes, unlocks, log } := by
    refine .answered (.ok (sampleLibs.stateToJson sampleSaved ++ "\n")) _
      ⟨⟨⟨rfl, _, rfl⟩, rfl, rfl⟩, hconsistent⟩ ?_
    dsimp only [Prog.bind]
    rw [sampleLibs_json]
    exact .ret _ _
  have hfresh : classify (.file true (sampleStamp 8 2)) (sampleSaved.get (sampleEntry 0o644).target)
      (sampleLibs.sha256 bytes) ((sampleEntry 0o644).adopt || sampleReconcileArgs.adopt) = .fresh := by
    rw [hsha]
    rfl
  have hexamine : Prog.Exec SampleStep
      (examineAll sampleLibs sampleReconcileArgs sampleSaved [sampleEntry 0o644])
      { fs := treeWithState bytes, unlocks, log } [.inl .upToDate]
      { fs := treeWithState bytes, unlocks, log } := by
    refine .answered (.ok bytes) _ ⟨⟨⟨rfl, _, rfl⟩, rfl, rfl⟩, hconsistent⟩ ?_
    refine .answered (.ok (.file true (sampleStamp 8 2))) _
      ⟨⟨⟨rfl, _, rfl, .file _ _⟩, rfl, rfl⟩, hconsistent⟩ ?_
    dsimp only [Prog.bind, pure]
    rw [hfresh]
    exact .ret _ _
  have hentries : Prog.Exec SampleStep
      (reconcileEntries OpenSsl.sample sampleLibs 7 sampleReconcileArgs sampleStatePath
        [sampleEntry 0o644]) { fs := treeWithState bytes, unlocks, log }
      (.ok { outcomes := [.upToDate], orphans := [], state := sampleSaved, exit := 0 })
      { fs := treeWithState bytes, unlocks, log } := by
    refine hload.bind ?_
    refine hexamine.bind ?_
    exact .ret _ _
  refine hentries.bind ?_
  refine .answered (.ok ()) _ ⟨rfl, hconsistent⟩ ?_
  exact .ret _ _

/-- Nothing of the sample leads to its state file. -/
private theorem undisturbed_sample (mode : UInt32) :
    Undisturbed sampleStatePath 7 [sampleEntry mode] (treeWithEbox bytes) := by
  have hapart : ∀ p, locate [] p ≠ locate [] sampleStatePath →
      ApartFrom sampleStatePath (treeWithEbox bytes) p := by
    intro p hp
    have htarget : (treeWithEbox bytes).target sampleStatePath = locate [] sampleStatePath :=
      Fs.target_of_none rfl
    rw [ApartFrom, htarget]
    exact ⟨hp, hp⟩
  refine ⟨?_, hapart _ (by decide), fun _ _ _ _ h => h.1⟩
  intro e he
  obtain rfl := List.mem_singleton.mp he
  exact ⟨hapart sampleTarget (by decide), hapart (tmpOf 7 sampleTarget) (by decide)⟩

/-- Nothing of the sample leads to another file. -/
private theorem separate_sample (mode : UInt32) :
    Separate sampleLibs sampleStatePath 7 [sampleEntry mode] (treeWithEbox bytes) where
  toUndisturbed := undisturbed_sample mode
  places := List.pairwise_singleton _ _
  eboxes := by
    intro q hq f hf
    obtain rfl := List.mem_singleton.mp hf
    have htarget : (treeWithEbox bytes).target ⟨"/e/a.ebox"⟩ = locate [] ⟨"/e/a.ebox"⟩ :=
      Fs.target_of_file (show (treeWithEbox bytes).lookup ⟨"/e/a.ebox"⟩ =
        some (.file bytes (sampleStamp 7 396)) from rfl)
    have hne : locate [] q ≠ locate [] ⟨"/e/a.ebox"⟩ := by
      rcases List.mem_cons.mp hq with rfl | hq
      · decide
      · obtain rfl : q = sampleTarget := List.mem_singleton.mp hq
        decide
    have hentry : ∀ p, (treeWithEbox bytes).entry p = locate [] p := fun _ => rfl
    rw [hentry, hentry]
    exact ⟨hne, fun h => hne (h.trans htarget)⟩
  modes := by
    intro e he state bytes' data stamp _ _ hfile
    obtain rfl := List.mem_singleton.mp he
    have hnone : (treeWithEbox bytes).lookup sampleTarget = none := rfl
    exact nomatch hnone.symm.trans hfile

end

set_option maxRecDepth 20000 in
/-- What the sample ebox is parsed as, and what decrypting it gives. -/
private theorem sampleEbox_decrypts : ∃ stream targets,
    EboxStream.fromBytes sampleEboxBytes = .ok stream ∧
      primaryPartTargets OpenSsl.sample stream = .ok targets ∧
      Decrypts OpenSsl.sample stream sampleEboxBytes (strBytes "hi") := by
  have hrun : (fun stream => (primaryPartTargets OpenSsl.sample stream,
        (decryptOne OpenSsl.sample stream sampleEboxBytes (some sampleBatchCard)
          (none : Option (EcdhOracle Unit)) () ()).1)) <$>
        EboxStream.fromBytes sampleEboxBytes =
      .ok (.ok [(OpenSsl.samplePoint .uncompressed 5, .nistP256)], .ok (strBytes "hi")) := by
    unfold sampleEboxBytes
    rfl
  obtain ⟨stream, hparse, hboth⟩ := map_ok.mp hrun
  obtain ⟨htargets, hplain⟩ := Prod.mk.inj hboth
  exact ⟨stream, _, hparse, htargets, Unit, Unit, _, _, _, _, hplain⟩

/-- The history of the sample: a run that exits 0. -/
theorem sample_first : ∃ w', w'.fs = treeWithState sampleEboxBytes ∧
    Prog.Exec SampleStep
      (reconcile OpenSsl.sample sampleLibs 7 sampleReconcileArgs sampleStatePath
        [sampleEntry 0o600])
      { fs := treeWithEbox sampleEboxBytes, unlocks := 0, log := [] } 0 w' := by
  obtain ⟨stream, targets, hparse, htargets, hdecrypts⟩ := sampleEbox_decrypts
  exact exec_first hparse htargets hdecrypts sha256_sampleEbox

/-- The history of the sample starts without a state file. -/
private theorem sample_start : Reached OpenSsl.sample sampleLibs sampleStatePath sampleContent
    sampleDeclared { fs := treeWithEbox sampleEboxBytes, unlocks := 0, log := [] } :=
  .start _ rfl (consistent_sample fun _ _ h => nomatch h)

private theorem sample_declared (mode : UInt32) :
    ∀ e ∈ [sampleEntry mode], sampleDeclared e.target := by
  intro e he
  obtain rfl := List.mem_singleton.mp he
  rfl

/-- After its mode is changed in the manifest, a run exits 0 and the target keeps the old mode. -/
theorem not_converged_changedMode :
    ¬ ∀ w w' text entries,
      Reached OpenSsl.sample sampleLibs sampleStatePath sampleContent sampleDeclared w →
      parseManifest sampleLibs text = .ok entries → (∀ e ∈ entries, sampleDeclared e.target) →
      Prog.Exec SampleStep
        (reconcile OpenSsl.sample sampleLibs 7 sampleReconcileArgs sampleStatePath entries) w 0 w' →
      Converged OpenSsl.sample sampleLibs sampleStatePath entries w'.fs := by
  intro h
  obtain ⟨w₁, hw₁, hfirst⟩ := sample_first
  have hreached := sample_start.run (sample_declared _) (fun _ => undisturbed_sample _) hfirst
  obtain ⟨state, -, -, hplaced⟩ := h w₁ w₁ _ _ hreached parseManifest_sample.2 (sample_declared _)
    (exec_second sha256_sampleEbox w₁ hw₁)
  obtain ⟨bytes, stream, plain, stamp, record, -, -, -, hfile, hmode, -⟩ :=
    hplaced _ List.mem_cons_self
  rw [hw₁] at hfile
  cases hfile
  cases hmode

/-- The first run of the sample converges. -/
theorem reconcile_converged_sample :
    ∃ w', Converged OpenSsl.sample sampleLibs sampleStatePath [sampleEntry 0o600] w' := by
  obtain ⟨w₁, hw₁, hfirst⟩ := sample_first
  exact ⟨w₁.fs, (reconcile_converged OpenSsl.sample sampleLibs sampleStatePath sampleContent
    sampleDeclared sampleLibs_json (fun _ _ => sampleLibs_sha256) sample_start
    parseManifest_sample.1 (sample_declared _) rfl (separate_sample _) hfirst).1⟩

end Piggy.Secrets
