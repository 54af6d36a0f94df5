import Piggy.Fibby.Server
import Piggy.Core.Lists

/-!
# The books of the reader daemon

The handles that connections hold, and for each card the table of who uses it. The books are
kept when a table counts the handles on its card and names as the holder of a transaction only
an open handle.
-/

namespace Piggy.Fibby

open Piggy.Core

/-! ## Handles of a connection -/

namespace Handles

variable {n : Nat} {m : Handles n} {h h' : Int32} {x : Handle n} {idx : Fin (n + 1)}

/-- How many handles are open on a card. -/
def openOn (m : Handles n) (idx : Fin (n + 1)) : Nat :=
  m.entries.countP fun e => e.2.backend = idx

/-- A handle is open on a card. -/
def Holds (m : Handles n) (h : Int32) (idx : Fin (n + 1)) : Prop :=
  ∃ x, m.lookup h = some x ∧ x.backend = idx

@[simp] theorem openOn_empty : openOn (∅ : Handles n) idx = 0 := rfl

/-- Taking a handle out leaves one less on its card. -/
theorem openOn_erase (hx : m.lookup h = some x) (idx : Fin (n + 1)) :
    m.openOn idx = openOn (m.erase h) idx + if x.backend = idx then 1 else 0 := by
  have hmem : h ∈ m.entries.keys := AList.lookup_isSome.mp (by rw [hx]; rfl)
  obtain ⟨x', front, back, -, hsplit, herase⟩ := List.exists_of_kerase hmem
  have hx' : x' = x := by
    have hin : (⟨h, x'⟩ : Sigma fun _ : Int32 => Handle n) ∈ m.entries := by
      rw [hsplit]
      exact List.mem_append_right _ List.mem_cons_self
    have hlook : m.lookup h = some x' := AList.mem_lookup_iff.mpr hin
    exact Option.some.inj (hlook.symm.trans hx)
  subst hx'
  have hentries : (m.erase h).entries = front ++ back := herase
  rw [openOn, openOn, hentries, hsplit, List.countP_append, List.countP_append, List.countP_cons]
  simp only [decide_eq_true_eq]
  omega

/-- A handle replaces what was there under its value. -/
theorem openOn_insert :
    openOn (m.insert h x) idx = openOn (m.erase h) idx + if x.backend = idx then 1 else 0 := by
  have hentries : (m.insert h x).entries = ⟨h, x⟩ :: (m.erase h).entries := by
    rw [AList.entries_insert]
    rfl
  rw [openOn, openOn, hentries, List.countP_cons]
  simp only [decide_eq_true_eq]

theorem erase_of_lookup_none (hx : m.lookup h = none) : m.erase h = m := by
  apply AList.ext
  exact List.kerase_of_notMem_keys (AList.lookup_eq_none.mp hx)

theorem holds_insert : Holds (m.insert h x) h' idx ↔
    if h' = h then x.backend = idx else m.Holds h' idx := by
  by_cases he : h' = h
  · subst he
    simp [Holds]
  · simp only [Holds, AList.lookup_insert_ne he, if_neg he]

theorem holds_erase : Holds (m.erase h) h' idx ↔ h' ≠ h ∧ m.Holds h' idx := by
  by_cases he : h' = h
  · subst he
    simp [Holds]
  · simp [Holds, AList.lookup_erase_ne he, he]

theorem Holds.unique {idx' : Fin (n + 1)} (ha : m.Holds h idx) (hb : m.Holds h idx') :
    idx = idx' := by
  obtain ⟨x, hx, rfl⟩ := ha
  obtain ⟨x', hx', rfl⟩ := hb
  rw [Option.some.inj (hx.symm.trans hx')]

end Handles

/-! ## The books -/

/-- The handles of all connections and what the cards know of them. -/
structure Ledger (n : Nat) where
  maps : List (Handles n)
  shares : Fin (n + 1) → CardShare

namespace Ledger

variable {n : Nat} {l : Ledger n} {i : Nat} {m : Handles n} {h : Int32} {x : Handle n}
  {idx idx' : Fin (n + 1)}

/-- How many handles are open on a card, over all connections. -/
def openOn (l : Ledger n) (idx : Fin (n + 1)) : Nat := (l.maps.map (·.openOn idx)).sum

/-- The books are kept. -/
structure Kept (l : Ledger n) : Prop where
  counts : ∀ idx, (l.shares idx).openHandles = l.openOn idx
  holder : ∀ idx h, (l.shares idx).transactionHolder = some h → ∃ m ∈ l.maps, m.Holds h idx

/-- Once nobody has the holder of a transaction open, the card admits everyone. -/
theorem Kept.admits (hk : l.Kept)
    (hgone : ∀ m ∈ l.maps, ∀ h, (l.shares idx).transactionHolder = some h → ¬ m.Holds h idx)
    (g : Int32) : (l.shares idx).admits g = true := by
  rw [CardShare.admits]
  cases hholder : (l.shares idx).transactionHolder with
  | none => rfl
  | some h =>
    obtain ⟨m, hm, hopen⟩ := hk.holder idx h hholder
    exact absurd hopen (hgone m hm h hholder)

/-- Replaces the handles of a connection. -/
theorem openOn_set (hi : l.maps[i]? = some m) (m' : Handles n) (idx : Fin (n + 1)) :
    ((l.maps.set i m').map (·.openOn idx)).sum + m.openOn idx = l.openOn idx + m'.openOn idx :=
  sum_map_set hi _ _

theorem openOn_le (hi : l.maps[i]? = some m) (idx : Fin (n + 1)) :
    m.openOn idx ≤ l.openOn idx := by
  have hset := openOn_set hi ∅ idx
  rw [Handles.openOn_empty] at hset
  omega

/-! ### A connection comes -/

/-- A connection comes without handles. -/
def joins (l : Ledger n) : Ledger n := { l with maps := l.maps ++ [∅] }

theorem kept_joins (hk : l.Kept) : l.joins.Kept where
  counts idx := by
    rw [openOn, joins, List.map_append, List.sum_append]
    simpa [openOn] using hk.counts idx
  holder idx h hholder := by
    obtain ⟨m, hm, hopen⟩ := hk.holder idx h hholder
    exact ⟨m, List.mem_append_left _ hm, hopen⟩

/-! ### A handle is opened -/

/-- A connection opens a handle on a card. -/
def opens (l : Ledger n) (i : Nat) (m : Handles n) (h : Int32) (x : Handle n) : Ledger n where
  maps := l.maps.set i (m.insert h x)
  shares := Function.update l.shares x.backend
    { l.shares x.backend with openHandles := (l.shares x.backend).openHandles + 1 }

@[simp] theorem openHandles_opens : ((l.opens i m h x).shares idx).openHandles =
    (l.shares idx).openHandles + if x.backend = idx then 1 else 0 := by
  simp only [opens, Function.update_apply]
  grind

@[simp] theorem transactionHolder_opens : ((l.opens i m h x).shares idx).transactionHolder =
    (l.shares idx).transactionHolder := by
  simp only [opens, Function.update_apply]
  grind

/-- Opening a handle keeps the books exactly when its value is new to the connection. -/
theorem kept_opens_iff (hk : l.Kept) (hi : l.maps[i]? = some m) :
    (l.opens i m h x).Kept ↔ m.lookup h = none := by
  have hset := openOn_set hi (m.insert h x)
  simp only [Handles.openOn_insert] at hset
  constructor
  · intro hk'
    by_contra hne
    obtain ⟨old, hold⟩ := Option.ne_none_iff_exists'.mp hne
    -- the handle that was there is lost, but still counted on its card
    have hcount := hk.counts old.backend
    have hcount' := hk'.counts old.backend
    have hlost := Handles.openOn_erase hold old.backend
    have hle := openOn_le hi old.backend
    have hset' := hset old.backend
    rw [openHandles_opens, openOn, opens] at hcount'
    rw [if_pos rfl] at hlost
    dsimp only at hcount'
    omega
  · intro hnew
    refine ⟨?_, ?_⟩
    · intro idx
      have hcount := hk.counts idx
      have hset' := hset idx
      rw [Handles.erase_of_lookup_none hnew] at hset'
      rw [openHandles_opens, openOn, opens]
      dsimp only
      omega
    · intro idx g hholder
      rw [transactionHolder_opens] at hholder
      obtain ⟨m', hm', hopen⟩ := hk.holder idx g hholder
      rcases mem_set_or_eq (i := i) (b := m.insert h x) hm' with hmem | hat
      · exact ⟨m', hmem, hopen⟩
      · have hmm : m' = m := Option.some.inj (hat.symm.trans hi)
        subst hmm
        refine ⟨m'.insert h x, mem_set_of_getElem? hi, ?_⟩
        rw [Handles.holds_insert, if_neg]
        · exact hopen
        · rintro rfl
          obtain ⟨y, hy, -⟩ := hopen
          rw [hnew] at hy
          cases hy

/-! ### A handle is closed -/

/-- A connection closes a handle. -/
def closes (l : Ledger n) (i : Nat) (m : Handles n) (h : Int32) (x : Handle n) : Ledger n where
  maps := l.maps.set i (m.erase h)
  shares := Function.update l.shares x.backend (Daemon.released (l.shares x.backend) h)

@[simp] theorem openHandles_closes : ((l.closes i m h x).shares idx).openHandles =
    (l.shares idx).openHandles - if x.backend = idx then 1 else 0 := by
  simp only [closes, Function.update_apply, Daemon.released]
  grind

/-- A closed handle holds nothing on its card. -/
theorem transactionHolder_closes {g : Int32}
    (hholder : ((l.closes i m h x).shares idx).transactionHolder = some g) :
    (l.shares idx).transactionHolder = some g ∧ (g = h → x.backend ≠ idx) := by
  simp only [closes, Function.update_apply, Daemon.released] at hholder
  grind

theorem kept_closes (hk : l.Kept) (hi : l.maps[i]? = some m) (hx : m.lookup h = some x) :
    (l.closes i m h x).Kept where
  counts idx := by
    have hcount := hk.counts idx
    have hset := openOn_set hi (m.erase h) idx
    have herase := Handles.openOn_erase hx idx
    rw [openHandles_closes, openOn, closes]
    dsimp only
    omega
  holder idx g hholder := by
    obtain ⟨hheld, hother⟩ := transactionHolder_closes hholder
    obtain ⟨m', hm', hopen⟩ := hk.holder idx g hheld
    rcases mem_set_or_eq (i := i) (b := m.erase h) hm' with hmem | hat
    · exact ⟨m', hmem, hopen⟩
    · have hmm : m' = m := Option.some.inj (hat.symm.trans hi)
      subst hmm
      refine ⟨m'.erase h, mem_set_of_getElem? hi, ?_⟩
      rw [Handles.holds_erase]
      refine ⟨?_, hopen⟩
      rintro rfl
      exact hother rfl (Handles.Holds.unique ⟨x, hx, rfl⟩ hopen)

/-! ### A transaction begins and ends -/

/-- The transaction of a card gets a holder, or none. -/
def holds (l : Ledger n) (idx : Fin (n + 1)) (holder : Option Int32) : Ledger n where
  maps := l.maps
  shares := Function.update l.shares idx { l.shares idx with transactionHolder := holder }

@[simp] theorem openHandles_holds {holder : Option Int32} :
    ((l.holds idx holder).shares idx').openHandles = (l.shares idx').openHandles := by
  simp only [holds, Function.update_apply]
  grind

@[simp] theorem transactionHolder_holds {holder : Option Int32} :
    ((l.holds idx holder).shares idx').transactionHolder =
      if idx' = idx then holder else (l.shares idx').transactionHolder := by
  simp only [holds, Function.update_apply]
  grind

/-- A new holder keeps the books exactly when it is open on the card. -/
theorem kept_holds_iff (hk : l.Kept) (idx : Fin (n + 1)) (holder : Option Int32) :
    (l.holds idx holder).Kept ↔ ∀ h, holder = some h → ∃ m ∈ l.maps, m.Holds h idx := by
  constructor
  · intro hk' h hholder
    apply hk'.holder idx h
    rw [transactionHolder_holds, if_pos rfl, hholder]
  · intro hopen
    refine ⟨?_, ?_⟩
    · intro idx'
      rw [openHandles_holds]
      exact hk.counts idx'
    · intro idx' g hholder
      rw [transactionHolder_holds] at hholder
      split at hholder
      · next hsame =>
        subst hsame
        exact hopen g hholder
      · exact hk.holder idx' g hholder

end Ledger

end Piggy.Fibby
