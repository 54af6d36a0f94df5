import Mathlib.Data.Char
import Mathlib.Data.Finset.Sort
import Piggy.Box.Ebox
import Piggy.Core.CommonPrefix
import Piggy.Markl.Id

/-!
# Labels of recipients

A listing shows every recipient by the first characters of its id, just as many as tell it from
all other recipients of the listing. Ids are ASCII, so that characters are bytes.
-/

namespace Piggy.Store

open Piggy.Core Piggy.Markl
open Piggy.Box (Bytes Ebox)

/-- How many characters of the body are shown at least. -/
def MIN_BODY : Nat := 8

/-- Where the body of an id starts: behind the `-` that follows the format. -/
def bodyStart (id : List Char) : Nat :=
  let formatStart := ((id.idxOf? '@').map (· + 1)).getD 0
  ((id.drop formatStart).idxOf? '-').elim 0 fun dash => formatStart + dash + 1

/-- The recipients of one ebox, or the mark of a file that is none. -/
inductive RecipientCell where
  | ids (shown : List (List Char))
  | unparseable
  deriving DecidableEq

/-- The id of a key. One that is no P-256 key has none and is shown as a question mark. -/
def renderRecipient (pubkey : Bytes) : List Char :=
  match Id.new (some .piggyRecipientV1) .pivyEcdhP256Pub pubkey with
  | .ok id => id.toWire
  | .error _ => ['?']

/-- Adds the id of a key that is not listed yet. -/
def addRecipient (ids : List (List Char)) (pubkey : Bytes) : List (List Char) :=
  let id := renderRecipient pubkey
  if id ∈ ids then ids else ids ++ [id]

/-- The cell of an ebox with recipients of these keys. -/
def cellOfKeys (pubkeys : List Bytes) : RecipientCell := .ids (pubkeys.foldl addRecipient [])

/-- The cell of a file; without contents it could not be read. -/
def extractRecipients (contents : Option Bytes) : RecipientCell :=
  match contents with
  | none => .unparseable
  | some bytes =>
    match Ebox.fromBytes bytes with
    | .error _ => .unparseable
    | .ok ebox => cellOfKeys (ebox.configs.flatMap fun config =>
        config.parts.map fun part => part.pivBox.recipientPubkey)

/-- The ids in a cell. -/
def RecipientCell.listed : RecipientCell → List (List Char)
  | .ids shown => shown
  | .unparseable => []

/-- The ids of all cells, without the question mark. -/
def distinctRecipients (cells : List RecipientCell) : Finset (List Char) :=
  ((cells.flatMap RecipientCell.listed).filter (· ≠ ['?'])).toFinset

/-- What an element shares with one of its neighbours at most. -/
def neighbourLen (v : List (List Char)) (i : Fin v.length) : Nat :=
  let lcpPrev := if h : 0 < i.val then commonPrefixLen v[i] v[i.val - 1] else 0
  let lcpNext := if h : i.val + 1 < v.length then commonPrefixLen v[i] v[i.val + 1] else 0
  max lcpPrev lcpNext

/-- The loop over the ids in order. -/
def prefixesOf (v : List (List Char)) : List (List Char × Nat) :=
  (List.finRange v.length).map fun i =>
    (v[i], min (max (neighbourLen v i + 1) (bodyStart v[i] + MIN_BODY)) v[i].length)

/-- How much of each id is shown: one character more than it shares with a neighbour in the
order, and some characters of the body. -/
def shortestUniquePrefixes (ids : Finset (List Char)) : List (List Char × Nat) := prefixesOf ids.sort

/-- How many characters of an id are shown. -/
def shownLen (id : List Char) (prefixes : List (List Char × Nat)) : Nat :=
  min ((prefixes.lookup id).getD id.length) id.length

/-- An id as it is shown, with dots when it is cut. -/
def renderId (id : List Char) (prefixes : List (List Char × Nat)) : List Char :=
  if id = ['?'] then ['?']
  else
    let len := shownLen id prefixes
    id.take len ++ (if len < id.length then ['…'] else [])

/-- What stands behind the name of an ebox. -/
def formatAnnotation (recipients : RecipientCell) (prefixes : List (List Char × Nat)) : List Char :=
  match recipients with
  | .unparseable => "[?]".toList
  | .ids shown =>
    '[' :: ([',', ' '].intercalate (shown.map fun id => renderId id prefixes) ++ [']'])

/-! ## What is looked up -/

theorem lookup_map_of_injective {ι α β : Type} [BEq α] [LawfulBEq α] {f : ι → α} (g : ι → β)
    (hf : Function.Injective f) {l : List ι} {i : ι} (hi : i ∈ l) :
    (l.map fun j => (f j, g j)).lookup (f i) = some (g i) := by
  induction l with
  | nil => cases hi
  | cons j l ih =>
    rw [List.map_cons, List.lookup_cons]
    by_cases hij : f i = f j
    · rw [hf hij, beq_self_eq_true]
    · have hne : i ≠ j := fun h => hij (congrArg f h)
      rw [beq_eq_false_iff_ne.mpr hij]
      exact ih (List.mem_of_ne_of_mem hne hi)

/-- An element shares with no other one more than with its neighbours. -/
theorem neighbourLen_spec {v : List (List Char)} (hsorted : v.Pairwise (· ≤ ·)) (hnodup : v.Nodup)
    (i : Fin v.length) :
    (∀ b ∈ v, b ≠ v[i] → commonPrefixLen v[i] b ≤ neighbourLen v i) ∧
      (neighbourLen v i = 0 ∨ ∃ b ∈ v, b ≠ v[i] ∧ commonPrefixLen v[i] b = neighbourLen v i) := by
  obtain ⟨i, hi⟩ := i
  simp only [neighbourLen, Fin.getElem_fin]
  refine ⟨?_, ?_⟩
  · intro b hb hne
    obtain ⟨j, hj, rfl⟩ := List.getElem_of_mem hb
    rcases Nat.lt_trichotomy i j with hij | rfl | hji
    · rw [dif_pos (Nat.lt_of_le_of_lt hij hj)]
      exact (commonPrefixLen_le_next hsorted hij hj).trans (le_max_right _ _)
    · exact absurd rfl hne
    · rw [dif_pos (Nat.zero_lt_of_lt hji)]
      exact (commonPrefixLen_le_prev hsorted hji hi).trans (le_max_left _ _)
  · have hother : ∀ j (hj : j < v.length), j ≠ i → v[j] ∈ v ∧ v[j] ≠ v[i] := fun j hj hji =>
      ⟨List.getElem_mem hj, fun h => hji (hnodup.getElem_inj_iff.mp h)⟩
    rcases max_choice (if h : 0 < i then commonPrefixLen v[i] v[i - 1] else 0)
      (if h : i + 1 < v.length then commonPrefixLen v[i] v[i + 1] else 0) with hmax | hmax
    · rw [hmax]
      by_cases h : 0 < i
      · rw [dif_pos h]
        obtain ⟨hin, hne⟩ := hother (i - 1) (by omega) (by omega)
        exact .inr ⟨_, hin, hne, rfl⟩
      · exact .inl (dif_neg h)
    · rw [hmax]
      by_cases h : i + 1 < v.length
      · rw [dif_pos h]
        obtain ⟨hin, hne⟩ := hother (i + 1) h (by omega)
        exact .inr ⟨_, hin, hne, rfl⟩
      · exact .inl (dif_neg h)

/-- What an id shares with the others at most decides how much of it is shown. -/
theorem shownLen_spec {ids : Finset (List Char)} {a : List Char} (ha : a ∈ ids) :
    ∃ n, shownLen a (shortestUniquePrefixes ids) =
        min (max (n + 1) (bodyStart a + MIN_BODY)) a.length ∧
      (∀ b ∈ ids, b ≠ a → commonPrefixLen a b ≤ n) ∧
      (n = 0 ∨ ∃ b ∈ ids, b ≠ a ∧ commonPrefixLen a b = n) := by
  have hsorted := ids.pairwise_sort (· ≤ ·)
  have hnodup := ids.sort_nodup (· ≤ ·)
  have hmem : ∀ b, b ∈ ids.sort ↔ b ∈ ids := fun b => ids.mem_sort (· ≤ ·)
  rw [shownLen, shortestUniquePrefixes]
  generalize ids.sort = v at hsorted hnodup hmem
  obtain ⟨i, rfl⟩ : ∃ i : Fin v.length, v[i] = a := by
    obtain ⟨i, hi, h⟩ := List.getElem_of_mem ((hmem a).mpr ha)
    exact ⟨⟨i, hi⟩, h⟩
  have hinj : Function.Injective fun j : Fin v.length => v[j] :=
    fun j k hjk => Fin.ext (hnodup.getElem_inj_iff.mp hjk)
  have hlookup : (prefixesOf v).lookup v[i] =
      some (min (max (neighbourLen v i + 1) (bodyStart v[i] + MIN_BODY)) v[i].length) :=
    lookup_map_of_injective _ hinj (List.mem_finRange i)
  rw [hlookup, Option.getD_some, min_assoc, min_self]
  obtain ⟨hmost, hattained⟩ := neighbourLen_spec hsorted hnodup i
  simp only [hmem] at hmost hattained
  exact ⟨_, rfl, hmost, hattained⟩

/-! ## Rendered ids -/

/-- What all ids of keys begin with. -/
def idLead : List Char := "piggy-recipient-v1@pivy_ecdh_p256_pub-".toList

/-- An id of a key: 53 characters for the key and six for the checksum behind the lead. -/
theorem renderRecipient_spec (pubkey : Bytes) :
    renderRecipient pubkey = ['?'] ∨ ∃ body : List Char, body.length = 59 ∧
      (∀ c ∈ body, c ≠ '…' ∧ c ≠ ',') ∧ renderRecipient pubkey = idLead ++ body := by
  rw [renderRecipient]
  rcases hnew : Id.new (some .piggyRecipientV1) .pivyEcdhP256Pub pubkey with e | id
  · exact .inl rfl
  · obtain ⟨hpurpose, hformat, -⟩ := Id.new_eq_ok hnew
    have hsize : id.data.length = 33 := by rw [id.size, hformat]; rfl
    obtain ⟨groups, hcarries⟩ :=
      Blech32.exists_carries (Blech32.hrpExpand FormatId.pivyEcdhP256Pub.asStr.toList) id.data
    have hlower : FormatId.pivyEcdhP256Pub.asStr.toList.all Blech32.isLowerHrpChar = true := by
      decide +kernel
    have henc := Blech32.encode_eq_ok.mpr
      ⟨by decide +kernel, List.all_eq_true.mp hlower, groups, rfl, hcarries⟩
    obtain ⟨k, hk, hlen⟩ := hcarries.length_groups
    rw [hsize, Blech32.checksumLen] at hlen
    refine .inr ⟨groups.map Blech32.charsetChar, ?_, ?_, ?_⟩
    · rw [List.length_map]
      omega
    · intro c hmem
      obtain ⟨v, hv, heq⟩ := List.mem_map.mp hmem
      have hchar := (Blech32.charsetChar_spec (hcarries.range v hv)).2
      rw [heq] at hchar
      constructor <;> rintro rfl <;> exact absurd hchar (by decide)
    · have hbody : id.body = FormatId.pivyEcdhP256Pub.asStr.toList ++
          Blech32.separator :: groups.map Blech32.charsetChar := by
        rw [Id.body, hformat, henc]
      simp only [Id.toWire, hpurpose, hbody]
      rfl

theorem bodyStart_lead (body : List Char) : bodyStart (idLead ++ body) = idLead.length := rfl

/-- A listing that shows ids of keys. -/
def OfKeys (cells : List RecipientCell) : Prop :=
  ∀ id ∈ cells.flatMap RecipientCell.listed, ∃ pubkey, id = renderRecipient pubkey

theorem ofKeys_cellOfKeys (pubkeys : List Bytes) :
    ∀ id ∈ (cellOfKeys pubkeys).listed, ∃ pubkey, id = renderRecipient pubkey := by
  have hfold : ∀ (keys : List Bytes) (start : List (List Char)),
      (∀ id ∈ start, ∃ pubkey, id = renderRecipient pubkey) →
      ∀ id ∈ keys.foldl addRecipient start, ∃ pubkey, id = renderRecipient pubkey := by
    intro keys
    induction keys with
    | nil => exact fun _ h => h
    | cons key keys ih =>
      intro start hstart
      refine ih (addRecipient start key) ?_
      intro id hid
      rw [addRecipient] at hid
      split at hid
      · exact hstart id hid
      · rcases List.mem_append.mp hid with hid | hid
        · exact hstart id hid
        · exact ⟨key, List.mem_singleton.mp hid⟩
  exact hfold pubkeys [] (List.forall_mem_nil _)

/-! ## Labels -/

/-- The labels of a listing. -/
structure Identified (cells : List RecipientCell) : Prop where
  /-- Different ids have different labels. -/
  distinct : ∀ a ∈ cells.flatMap RecipientCell.listed, ∀ b ∈ cells.flatMap RecipientCell.listed,
    renderId a (shortestUniquePrefixes (distinctRecipients cells)) =
      renderId b (shortestUniquePrefixes (distinctRecipients cells)) → a = b
  /-- A label shows the fewest characters that reach into the body and begin no other id. -/
  shortest : ∀ a ∈ distinctRecipients cells, ∃ n ≤ a.length,
    renderId a (shortestUniquePrefixes (distinctRecipients cells)) =
      a.take n ++ (if n < a.length then ['…'] else []) ∧
    IsLeast {k | bodyStart a + MIN_BODY ≤ k ∧
      ∀ b ∈ distinctRecipients cells, b ≠ a → ¬ a.take k <+: b} n

theorem mem_distinctRecipients {cells : List RecipientCell} {id : List Char} :
    id ∈ distinctRecipients cells ↔ id ∈ cells.flatMap RecipientCell.listed ∧ id ≠ ['?'] := by
  rw [distinctRecipients, List.mem_toFinset, List.mem_filter, decide_eq_true_eq]

/-- The length of a label among ids of one length that reach far enough behind their bodies'
starts. -/
theorem shownLen_isLeast {ids : Finset (List Char)} {a : List Char} (ha : a ∈ ids)
    (hlen : ∀ b ∈ ids, b.length = a.length) (hbody : bodyStart a + MIN_BODY ≤ a.length) :
    shownLen a (shortestUniquePrefixes ids) ≤ a.length ∧
      IsLeast {k | bodyStart a + MIN_BODY ≤ k ∧ ∀ b ∈ ids, b ≠ a → ¬ a.take k <+: b}
        (shownLen a (shortestUniquePrefixes ids)) := by
  obtain ⟨n, hshown, hmost, hattained⟩ := shownLen_spec ha
  have hshare : ∀ b ∈ ids, b ≠ a → commonPrefixLen a b < a.length := by
    intro b hb hne
    by_contra hge
    have hfront := (take_isPrefix_iff le_rfl).mpr (Nat.le_of_not_lt hge)
    rw [List.take_length] at hfront
    exact hne (hfront.eq_of_length (hlen b hb).symm).symm
  have hn : n + 1 ≤ a.length := by
    rcases hattained with rfl | ⟨b, hb, hne, rfl⟩
    · exact Nat.le_trans (by simp [MIN_BODY]) hbody
    · exact hshare b hb hne
  rw [min_eq_left (max_le hn hbody)] at hshown
  rw [hshown]
  refine ⟨max_le hn hbody, ⟨le_max_right _ _, ?_⟩, ?_⟩
  · intro b hb hne hfront
    have hle := (take_isPrefix_iff (max_le hn hbody)).mp hfront
    have hgt := hmost b hb hne
    have hmax := le_max_left (n + 1) (bodyStart a + MIN_BODY)
    omega
  · rintro k ⟨hk, hunique⟩
    refine max_le ?_ hk
    rcases hattained with rfl | ⟨b, hb, hne, rfl⟩
    · exact Nat.le_trans (by simp [MIN_BODY]) hk
    · by_contra hle
      have hk' : k ≤ commonPrefixLen a b := Nat.le_of_lt_succ (Nat.lt_of_not_le hle)
      exact hunique b hb hne
        ((take_isPrefix_iff (hk'.trans (hshare b hb hne).le)).mpr hk')

/-- A label that is not the mark begins with the part that is shown. -/
theorem renderId_of_ne {a : List Char} (ha : a ≠ ['?']) (prefixes : List (List Char × Nat)) :
    renderId a prefixes =
      a.take (shownLen a prefixes) ++ (if shownLen a prefixes < a.length then ['…'] else []) :=
  if_neg ha

section

variable {cells : List RecipientCell} (h : OfKeys cells) {a : List Char} (ha : a ∈ distinctRecipients cells)

include h ha

theorem OfKeys.exists_body :
    ∃ body : List Char, body.length = 59 ∧ (∀ c ∈ body, c ≠ '…' ∧ c ≠ ',') ∧ a = idLead ++ body := by
  obtain ⟨hlisted, hne⟩ := mem_distinctRecipients.mp ha
  obtain ⟨pubkey, rfl⟩ := h a hlisted
  exact (renderRecipient_spec pubkey).resolve_left hne

theorem OfKeys.isLeast :
    shownLen a (shortestUniquePrefixes (distinctRecipients cells)) ≤ a.length ∧
      IsLeast {k | bodyStart a + MIN_BODY ≤ k ∧
        ∀ b ∈ distinctRecipients cells, b ≠ a → ¬ a.take k <+: b}
        (shownLen a (shortestUniquePrefixes (distinctRecipients cells))) := by
  obtain ⟨body, hbody, -, rfl⟩ := h.exists_body ha
  refine shownLen_isLeast ha ?_ ?_
  · intro b hb
    obtain ⟨body', hbody', -, rfl⟩ := h.exists_body hb
    rw [List.length_append, List.length_append, hbody, hbody']
  · rw [bodyStart_lead, List.length_append, hbody, MIN_BODY]
    omega

/-- A label without its dots is the part that is shown. -/
theorem OfKeys.filter_renderId :
    (renderId a (shortestUniquePrefixes (distinctRecipients cells))).filter (· ≠ '…') =
      a.take (shownLen a (shortestUniquePrefixes (distinctRecipients cells))) := by
  obtain ⟨body, -, hdot, rfl⟩ := h.exists_body ha
  have hrest : ∀ p : Prop, [Decidable p] → (if p then ['…'] else []).filter (· ≠ '…') = [] := by
    intro p _
    split <;> rfl
  rw [renderId_of_ne (mem_distinctRecipients.mp ha).2, List.filter_append, hrest, List.append_nil,
    List.filter_eq_self]
  intro x hx
  have hmem : x ∈ idLead ++ body := List.mem_of_mem_take hx
  rw [decide_eq_true_eq]
  rintro rfl
  rcases List.mem_append.mp hmem with hlead | hbody
  · exact absurd hlead (by decide)
  · exact (hdot _ hbody).1 rfl

theorem OfKeys.renderId_ne_mark :
    renderId a (shortestUniquePrefixes (distinctRecipients cells)) ≠ ['?'] := by
  intro heq
  obtain ⟨body, hbody, -, rfl⟩ := h.exists_body ha
  obtain ⟨hle, ⟨hfloor, -⟩, -⟩ := h.isLeast ha
  rw [renderId_of_ne (mem_distinctRecipients.mp ha).2] at heq
  have hlen := congrArg List.length heq
  rw [List.length_append, List.length_take, min_eq_left hle] at hlen
  have hlead : idLead.length = 38 := rfl
  rw [bodyStart_lead, hlead, MIN_BODY] at hfloor
  have hone : ['?'].length = 1 := rfl
  omega

/-- What an id shows begins no other id, so its label is no other's. -/
theorem OfKeys.eq_of_renderId {b : List Char} (hb : b ∈ distinctRecipients cells)
    (heq : renderId a (shortestUniquePrefixes (distinctRecipients cells)) =
      renderId b (shortestUniquePrefixes (distinctRecipients cells))) : a = b := by
  by_contra hne
  refine (h.isLeast ha).2.1.2 b hb (Ne.symm hne) ?_
  rw [← h.filter_renderId ha, heq, h.filter_renderId hb]
  exact List.take_prefix _ _

end

/-- Labels of ids of keys tell these apart. -/
theorem identified_of_keys {cells : List RecipientCell} (h : OfKeys cells) : Identified cells := by
  refine ⟨?_, ?_⟩
  · intro a ha b hb heq
    have hmark : renderId ['?'] (shortestUniquePrefixes (distinctRecipients cells)) = ['?'] := if_pos rfl
    by_cases hamark : a = ['?'] <;> by_cases hbmark : b = ['?']
    · rw [hamark, hbmark]
    · subst hamark
      exact absurd (heq.symm.trans hmark) (h.renderId_ne_mark (mem_distinctRecipients.mpr ⟨hb, hbmark⟩))
    · subst hbmark
      exact absurd (heq.trans hmark) (h.renderId_ne_mark (mem_distinctRecipients.mpr ⟨ha, hamark⟩))
    · exact h.eq_of_renderId (mem_distinctRecipients.mpr ⟨ha, hamark⟩)
        (mem_distinctRecipients.mpr ⟨hb, hbmark⟩) heq
  · intro a ha
    exact ⟨_, (h.isLeast ha).1, renderId_of_ne (mem_distinctRecipients.mp ha).2 _, (h.isLeast ha).2⟩

theorem ofKeys_extractRecipients (contents : List (Option Bytes)) :
    OfKeys (contents.map extractRecipients) := by
  intro id hid
  obtain ⟨cell, hcell, hlisted⟩ := List.mem_flatMap.mp hid
  obtain ⟨bytes, -, rfl⟩ := List.mem_map.mp hcell
  cases bytes with
  | none => cases hlisted
  | some bytes =>
    rw [extractRecipients] at hlisted
    split at hlisted
    · cases hlisted
    · exact ofKeys_cellOfKeys _ id hlisted

/-- Whatever keys the files of a listing are encrypted to, the labels tell their ids apart; so do
those of the recipients that are read from files. -/
theorem labels_identify (listing : List (Option (List Bytes))) (contents : List (Option Bytes)) :
    Identified (listing.map fun keys => keys.elim .unparseable cellOfKeys) ∧
      Identified (contents.map extractRecipients) := by
  refine ⟨identified_of_keys ?_, identified_of_keys (ofKeys_extractRecipients contents)⟩
  intro id hid
  obtain ⟨cell, hcell, hlisted⟩ := List.mem_flatMap.mp hid
  obtain ⟨keys, -, rfl⟩ := List.mem_map.mp hcell
  cases keys with
  | none => cases hlisted
  | some keys => exact ofKeys_cellOfKeys keys id hlisted

/-! ## Annotations -/

theorem intercalate_comma (l : List Char) (ls : List (List Char)) :
    [',', ' '].intercalate (l :: ls) = [','].intercalate (l :: ls.map (' ' :: ·)) := by
  induction ls generalizing l with
  | nil => rfl
  | cons x ls ih =>
    rw [List.map_cons, List.intercalate_cons_cons, List.intercalate_cons_cons, ih,
      List.intercalate_cons_cons_left]
    simp

/-- Joined texts without commas tell the texts. -/
theorem intercalate_inj {ls ls' : List (List Char)} (h : ∀ l ∈ ls, l ≠ [] ∧ ',' ∉ l)
    (h' : ∀ l ∈ ls', l ≠ [] ∧ ',' ∉ l)
    (heq : [',', ' '].intercalate ls = [',', ' '].intercalate ls') : ls = ls' := by
  have hsplit : ∀ l ls, (∀ x ∈ l :: ls, x ≠ [] ∧ ',' ∉ x) →
      ([',', ' '].intercalate (l :: ls)).splitOn ',' = l :: ls.map (' ' :: ·) := by
    intro l ls h
    rw [intercalate_comma, List.splitOn_intercalate _ _ (List.cons_ne_nil _ _)]
    intro x hx
    rcases List.mem_cons.mp hx with rfl | hx
    · exact (h x List.mem_cons_self).2
    · obtain ⟨y, hy, rfl⟩ := List.mem_map.mp hx
      simpa using (h y (List.mem_cons_of_mem _ hy)).2
  have hnil : ∀ l ls, l ≠ [] → [',', ' '].intercalate (l :: ls) ≠ [] := by
    intro l ls hl heq
    cases ls with
    | nil => exact hl (by simpa using heq)
    | cons x ls => simp [List.intercalate_cons_cons] at heq
  cases ls with
  | nil =>
    cases ls' with
    | nil => rfl
    | cons l' ls' => exact absurd heq.symm (hnil l' ls' (h' l' List.mem_cons_self).1)
  | cons l ls =>
    cases ls' with
    | nil => exact absurd heq (hnil l ls (h l List.mem_cons_self).1)
    | cons l' ls' =>
      have hboth := congrArg (List.splitOn ',') heq
      rw [hsplit l ls h, hsplit l' ls' h', List.cons.injEq] at hboth
      rw [hboth.1, List.map_injective_iff.mpr (List.cons_injective) hboth.2]

theorem renderId_plain (pubkey : Bytes) (prefixes : List (List Char × Nat)) :
    renderId (renderRecipient pubkey) prefixes ≠ [] ∧
      ',' ∉ renderId (renderRecipient pubkey) prefixes := by
  rcases renderRecipient_spec pubkey with hmark | ⟨body, hlength, hbody, hid⟩
  · rw [hmark, renderId, if_pos rfl]
    decide
  · have hlong : 59 ≤ (idLead ++ body).length := by
      rw [List.length_append, hlength]
      exact Nat.le_add_left ..
    have hne : idLead ++ body ≠ ['?'] := by
      intro heq
      rw [heq] at hlong
      exact absurd hlong (by decide)
    rw [hid, renderId_of_ne hne]
    constructor
    · intro heq
      obtain ⟨htake, hdots⟩ := List.append_eq_nil_iff.mp heq
      split at hdots
      · cases hdots
      · rename_i hall
        rw [List.take_of_length_le (Nat.le_of_not_lt hall)] at htake
        rw [htake] at hlong
        exact absurd hlong (by decide)
    · intro hmem
      rcases List.mem_append.mp hmem with hmem | hmem
      · rcases List.mem_append.mp (List.mem_of_mem_take hmem) with hlead | hmem
        · exact absurd hlead (by decide)
        · exact (hbody _ hmem).2 rfl
      · split at hmem <;> simp at hmem

/-- The annotations of two eboxes of a listing are alike only if these have the same recipients. -/
theorem formatAnnotation_inj {cells : List RecipientCell} (h : OfKeys cells)
    {a b : List (List Char)} (ha : .ids a ∈ cells) (hb : .ids b ∈ cells)
    (heq : formatAnnotation (.ids a) (shortestUniquePrefixes (distinctRecipients cells)) =
      formatAnnotation (.ids b) (shortestUniquePrefixes (distinctRecipients cells))) : a = b := by
  have hlisted : ∀ ids : List (List Char), .ids ids ∈ cells → ∀ id ∈ ids,
      id ∈ cells.flatMap RecipientCell.listed :=
    fun _ hids id hid => List.mem_flatMap.mpr ⟨_, hids, hid⟩
  have hplain : ∀ ids : List (List Char), .ids ids ∈ cells → ∀ l ∈ ids.map fun id =>
      renderId id (shortestUniquePrefixes (distinctRecipients cells)), l ≠ [] ∧ ',' ∉ l := by
    intro ids hids l hl
    obtain ⟨id, hid, rfl⟩ := List.mem_map.mp hl
    obtain ⟨pubkey, rfl⟩ := h id (hlisted ids hids id hid)
    exact renderId_plain pubkey _
  rw [ formatAnnotation, formatAnnotation, List.cons.injEq, List.append_cancel_right_eq] at heq
  have hlabels := intercalate_inj (hplain a ha) (hplain b hb) heq.2
  have hlength : a.length = b.length := by
    simpa only [List.length_map] using congrArg List.length hlabels
  refine List.ext_getElem hlength fun i hi hi' => ?_
  have hlabel := congrArg (fun labels => labels[i]?) hlabels
  simp only [List.getElem?_map, List.getElem?_eq_getElem hi, List.getElem?_eq_getElem hi',
    Option.map_some, Option.some.injEq] at hlabel
  exact (identified_of_keys h).distinct a[i] (hlisted a ha _ (List.getElem_mem hi)) b[i]
    (hlisted b hb _ (List.getElem_mem hi')) hlabel

end Piggy.Store
