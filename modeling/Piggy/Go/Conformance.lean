import Piggy.Go.Receivers
import Piggy.Markl.Grammar

/-!
# Two parsers and one grammar

The Rust parser and the Go setter read the same grammar. Each of them is compared with what
the grammar and its own registry admit, and where both accept a text, with the other.
-/

namespace Piggy.Go.Markl.Id

open Piggy.Core
open Piggy.Markl (PurposeId)
open Piggy.Markl.Grammar (Slot Parts Reads Accepted slotValue digest accepted_iff reads_parts)
open Piggy.Markl.Blech32 (isHrpChar isLowerHrpChar hrpExpand Carries)

variable (reg : Registry) (t : CaseTables)

/-! ## The setter on text -/

/-- The purpose of a zero id after a slot was taken. -/
def purposeOf (value : Option (List Char)) : Bytes := (value.map utf8).getD []

theorem utf8_ne_nil {s : List Char} (h : s ≠ []) : utf8 s ≠ [] := by
  cases s with
  | nil => exact absurd rfl h
  | cons c cs =>
    rw [utf8_cons]
    simp [String.utf8EncodeChar_ne_nil]

/-- The setter on a zero id, when purpose and digest were read. -/
theorem set_of_reads {s body : List Char} {value : Option (List Char)} {formatId payload : Bytes}
    (hne : s ≠ []) (hreads : Reads s value body)
    (hdec : Blech32.decodeString t (utf8 body) = .ok (formatId, payload)) :
    set reg t (utf8 s) zero = setMarklId reg formatId payload ⟨purposeOf value, none, []⟩ := by
  have hset := readsText_set reg t
  have hsplit := Purpose.splitPurposeSlot_utf8 s
  rcases hreads with ⟨rfl, hs⟩ | ⟨p, v, rfl, hs, hv⟩
  · rw [hs] at hsplit
    rw [(hset.noSlot _ _ (utf8_ne_nil hne) hsplit).1 _ _ hdec]
    rfl
  · rw [hs] at hsplit
    have hvalue : Purpose.unquotePurpose (utf8 p) = .ok (utf8 v) := by
      rw [Purpose.unquotePurpose_utf8, hv]
    rw [(hset.slotTaken _ _ _ _ (utf8_ne_nil hne) hsplit hvalue).1 _ _ hdec]
    rfl

/-- A setter that succeeds has read purpose and digest. -/
theorem reads_of_set {s : List Char} (hne : s ≠ []) (h : Succeeds (set reg t (utf8 s) zero)) :
    ∃ value body formatId payload, Reads s value body ∧
      Blech32.decodeString t (utf8 body) = .ok (formatId, payload) := by
  have hset := readsText_set reg t
  have hsplit := Purpose.splitPurposeSlot_utf8 s
  have hbody : ∀ body, (∀ e, Blech32.decodeString t (utf8 body) = .error e → False) →
      ∃ formatId payload, Blech32.decodeString t (utf8 body) = .ok (formatId, payload) := by
    intro body herr
    rcases hdec : Blech32.decodeString t (utf8 body) with ⟨formatId, payload⟩ | e | _
    · exact ⟨formatId, payload, rfl⟩
    · exact (herr e hdec).elim
    · exact absurd hdec (hset.returns _)
  rcases hs : Markl.splitPurposeSlot s with ⟨_ | p, body⟩
  · rw [hs] at hsplit
    obtain ⟨formatId, payload, hdec⟩ := hbody body fun e he => by
      obtain ⟨e', he'⟩ := (hset.noSlot _ _ (utf8_ne_nil hne) hsplit).2 e he
      rw [he'] at h
      cases h
    exact ⟨none, body, formatId, payload, .inl ⟨rfl, hs⟩, hdec⟩
  · rw [hs] at hsplit
    have hvalue := Purpose.unquotePurpose_utf8 p
    rcases hv : Markl.unquotePurpose p with e | v
    · rw [hv] at hvalue
      rw [hset.slotMalformed _ _ _ _ (utf8_ne_nil hne) hsplit hvalue] at h
      cases h
    · rw [hv] at hvalue
      obtain ⟨formatId, payload, hdec⟩ := hbody body fun e he => by
        obtain ⟨e', he'⟩ := (hset.slotTaken _ _ _ _ (utf8_ne_nil hne) hsplit hvalue).2 e he
        rw [he'] at h
        cases h
      exact ⟨some v, body, formatId, payload, .inr ⟨p, v, rfl, hs, hv⟩, hdec⟩

/-- What the setter makes of a zero id: purpose, format and payload of the text, where the
registry lets them through. -/
theorem set_eq_ok {s : List Char} (hne : s ≠ []) {id : Id} :
    set reg t (utf8 s) zero = (.ok (), id) ↔ ∃ value name groups payload f,
      Reads s value (digest name groups) ∧ name ≠ [] ∧ (∀ c ∈ name, isLowerHrpChar c = true) ∧
      Carries (hrpExpand name) groups payload ∧
      reg.Fits (purposeOf value) (utf8 name) payload f ∧ id = ⟨purposeOf value, some f, payload⟩ := by
  constructor
  · intro h
    obtain ⟨value, body, formatId, payload, hreads, hdec⟩ :=
      reads_of_set reg t hne (congrArg Prod.fst h)
    rw [set_of_reads reg t hne hreads hdec] at h
    obtain ⟨name, groups, rfl, hname, hchars, rfl, hcarries⟩ := (Blech32.decodeString_utf8 t).mp hdec
    rcases setMarklId_cases reg (utf8 name) payload ⟨purposeOf value, none, []⟩ with
      ⟨he, -⟩ | ⟨-, -, e, he⟩ | ⟨f, hf, hres⟩
    · exact absurd he (utf8_ne_nil hname)
    · rw [he] at h
      cases h
    · rw [hres] at h
      refine ⟨value, name, groups, payload, f, hreads, hname, hchars, hcarries, hf, ?_⟩
      rw [← (Prod.mk.inj h).2]
      congr 1
      split
      · next hp => exact hp.symm
      · rfl
  · rintro ⟨value, name, groups, payload, f, hreads, hname, hchars, hcarries, hf, rfl⟩
    have hdec := (Blech32.decodeString_utf8 t).mpr
      ⟨name, groups, rfl, hname, hchars, rfl, hcarries⟩
    rw [set_of_reads reg t hne hreads hdec]
    rcases setMarklId_cases reg (utf8 name) payload ⟨purposeOf value, none, []⟩ with
      ⟨he, -⟩ | ⟨-, hno, -⟩ | ⟨g, hg, hres⟩
    · exact absurd he (utf8_ne_nil hname)
    · exact absurd hf (hno f)
    · obtain rfl : f = g := Except.ok.inj (hf.format.symm.trans hg.format)
      rw [hres]
      congr 2
      split
      · next hp => exact hp.symm
      · rfl

/-! ## Conformance -/

/-- What a registry admits. -/
def admits (value : Option (List Char)) (name : List Char) (size : Nat) : Prop :=
  ∃ f, reg.getFormatOrError (utf8 name) = .ok f ∧ size = f.size ∧
    reg.validatePurposeAndFormatId (purposeOf value) (utf8 name) = .ok ()

/-- The purpose of an id in both languages; in Go the empty one means that there is none. -/
def SamePurpose : Option PurposeId → Bytes → Prop
  | none, purposeId => purposeId = []
  | some p, purposeId => purposeId = utf8 p.asStr.toList ∧ purposeId ≠ []

/-- One id in both languages. -/
structure Same (rust : Piggy.Markl.Id) (go : Id) : Prop where
  purpose : SamePurpose rust.purpose go.purposeId
  format : go.format = some ⟨utf8 rust.format.asStr.toList, rust.format.size⟩
  data : go.data = rust.data

/-- On one text each parser accepts what the grammar and its registry admit, and where both
accept it they give the same id, whose payload is not empty. -/
structure Conforms (s : List Char) : Prop where
  rust : (∃ id, Piggy.Markl.Id.parse s = .ok id) ↔ Accepted Piggy.Markl.Grammar.admits s
  go : Succeeds (set reg t (utf8 s) zero) ↔ Accepted (admits reg) s
  same : ∀ id, Piggy.Markl.Id.parse s = .ok id → Succeeds (set reg t (utf8 s) zero) →
    Same id (set reg t (utf8 s) zero).2
  payload : (∀ id, Piggy.Markl.Id.parse s = .ok id → id.data ≠ []) ∧
    (Succeeds (set reg t (utf8 s) zero) → (set reg t (utf8 s) zero).2.data ≠ [])

/-- A text whose digest is a valid checksum with nothing in front of it, for a format that is
registered and that the purpose admits. -/
def IsBareChecksum (s : List Char) : Prop :=
  ∃ p name groups f, Parts s p name groups ∧ groups.length = 6 ∧
    Carries (hrpExpand name) groups [] ∧ reg.getFormatOrError (utf8 name) = .ok f ∧
    reg.validatePurposeAndFormatId (purposeOf (p.map slotValue)) (utf8 name) = .ok ()

/-- A text with an empty purpose in quotes that both registries admit. -/
def HasEmptyPurpose (s : List Char) : Prop :=
  (∃ body, s = '"' :: '"' :: '@' :: body ∨ s = '\'' :: '\'' :: '@' :: body) ∧
    Accepted Piggy.Markl.Grammar.admits s ∧ Accepted (admits reg) s

/-- A registered format that is spelled without a separator is spelled by its id. -/
theorem lower_of_registered {name : List Char} {f : Format}
    (h : reg.getFormatOrError (utf8 name) = .ok f) (hname : ∀ c ∈ name, isHrpChar c = true) :
    f.id = utf8 name ∧ ∀ c ∈ name, isLowerHrpChar c = true := by
  have hnot : Blech32.separator ∉ utf8 name := by
    rw [mem_utf8_ascii (by decide)]
    intro hmem
    exact absurd (hname _ hmem) (by decide)
  obtain ⟨-, -, hchars, -, hid⟩ := reg.getFormatOrError_spec h
  rw [← hid hnot] at hchars
  refine ⟨(hid hnot).symm, ?_⟩
  intro c hc
  have hascii : c.toNat < 128 := Blech32.ascii_of_isHrpChar (hname c hc)
  have hmem : UInt8.ofNat c.toNat ∈ utf8 name := by
    refine List.mem_flatMap.mpr ⟨c, hc, ?_⟩
    rw [utf8EncodeChar_ascii hascii]
    simp
  have hback : asciiChar (UInt8.ofNat c.toNat) = c := by
    rw [← Char.toNat_inj, toNat_asciiChar, UInt8.toNat_ofNat_of_lt' (Nat.lt_trans hascii (by decide))]
  rw [← hback]
  exact hchars _ hmem

/-- A purpose that was read is empty only when it was spelled as two quotes. -/
theorem slotValue_eq_nil {s name p : List Char} {groups : List UInt8}
    (h : Parts s (some p) name groups) (hp : slotValue p = []) :
    ∃ body, s = '"' :: '"' :: '@' :: body ∨ s = '\'' :: '\'' :: '@' :: body := by
  have hslot := h.slot
  generalize hbody : digest name groups = body at hslot
  cases hslot with
  | purposed hrun =>
    obtain ⟨-, hvalue⟩ := Piggy.Markl.Grammar.split_of_run hrun
    cases p with
    | nil => cases hvalue
    | cons quote rest =>
      rw [slotValue] at hp
      by_cases hquote : quote = '"' ∨ quote = '\''
      · rw [if_pos hquote] at hp
        have hq : ¬ (quote ≠ '"' ∧ quote ≠ '\'') := fun hno => hquote.elim hno.1 hno.2
        rw [Piggy.Markl.unquotePurpose, if_neg hq] at hvalue
        by_cases hlast : rest.getLast? = some quote
        · obtain ⟨front, rfl⟩ := List.getLast?_eq_some_iff.mp hlast
          rw [List.dropLast_concat, Piggy.Markl.unescapePurposeInterior_eq_nil] at hp
          subst hp
          refine ⟨body, ?_⟩
          rcases hquote with rfl | rfl
          · exact .inl rfl
          · exact .inr rfl
        · rw [if_neg hlast] at hvalue
          cases hvalue
      · rw [if_neg hquote] at hp
        cases hp

theorem go_lower {value : Option (List Char)} {name : List Char} {n : Nat}
    (h : admits reg value name n) (hname : ∀ c ∈ name, isHrpChar c = true) :
    ∀ c ∈ name, isLowerHrpChar c = true := by
  obtain ⟨f, hf, -, -⟩ := h
  exact (lower_of_registered reg hf hname).2

/-- The setter accepts what the grammar and the registry admit, and with it what leaves the
payload empty. -/
theorem go_accepts {s : List Char} (hne : s ≠ []) :
    Accepted (admits reg) s ↔ ∃ id, set reg t (utf8 s) zero = (.ok (), id) ∧ id.data ≠ [] := by
  rw [accepted_iff (fun _ _ _ => go_lower reg) hne]
  simp only [set_eq_ok reg t hne]
  constructor
  · rintro ⟨value, name, groups, payload, hreads, hname, hlower, hcarries, hpayload, f, hf, hsize, hp⟩
    exact ⟨_, ⟨value, name, groups, payload, f, hreads, hname, hlower, hcarries,
      ⟨hf, hp, fun _ => hsize⟩, rfl⟩, hpayload⟩
  · rintro ⟨id, ⟨value, name, groups, payload, f, hreads, hname, hlower, hcarries, hfits, rfl⟩, hpayload⟩
    exact ⟨value, name, groups, payload, hreads, hname, hlower, hcarries, hpayload, f,
      hfits.format, hfits.size hpayload, hfits.purpose⟩

/-- Only a bare checksum leaves the payload empty. -/
theorem isBareChecksum_iff {s : List Char} (hne : s ≠ []) :
    IsBareChecksum reg s ↔ ∃ id, set reg t (utf8 s) zero = (.ok (), id) ∧ id.data = [] := by
  simp only [set_eq_ok reg t hne]
  constructor
  · rintro ⟨p, name, groups, f, hparts, -, hcarries, hf, hp⟩
    obtain ⟨hname, hchars⟩ := Piggy.Markl.Grammar.run_format.mp hparts.format
    have hlower := (lower_of_registered reg hf hchars).2
    have hreads := (reads_parts hname hlower hcarries.range).mpr ⟨p, hparts, rfl⟩
    exact ⟨_, ⟨_, name, groups, [], f, hreads, hname, hlower, hcarries,
      ⟨hf, hp, fun h => absurd rfl h⟩, rfl⟩, rfl⟩
  · rintro ⟨id, ⟨value, name, groups, payload, f, hreads, hname, hlower, hcarries, hfits, rfl⟩, hpayload⟩
    obtain rfl : payload = [] := hpayload
    obtain ⟨p, hparts, rfl⟩ := (reads_parts hname hlower hcarries.range).mp hreads
    exact ⟨p, name, groups, f, hparts, hcarries.length_eq.mpr rfl, hcarries, hfits.format,
      hfits.purpose⟩

theorem reads_unique {s body body' : List Char} {value value' : Option (List Char)}
    (h : Reads s value body) (h' : Reads s value' body') : value = value' ∧ body = body' := by
  rcases h with ⟨rfl, hs⟩ | ⟨p, v, rfl, hs, hv⟩
  · rcases h' with ⟨rfl, hs'⟩ | ⟨p', v', rfl, hs', hv'⟩
    · cases hs.symm.trans hs'
      exact ⟨rfl, rfl⟩
    · cases hs.symm.trans hs'
  · rcases h' with ⟨rfl, hs'⟩ | ⟨p', v', rfl, hs', hv'⟩
    · cases hs.symm.trans hs'
    · cases hs.symm.trans hs'
      cases hv.symm.trans hv'
      exact ⟨rfl, rfl⟩

/-- A digest has one name and one payload. -/
theorem digest_unique {name name' : List Char} {groups groups' payload payload' : Bytes}
    (hname : ∀ c ∈ name, isLowerHrpChar c = true) (hname' : ∀ c ∈ name', isLowerHrpChar c = true)
    (hcarries : Carries (hrpExpand name) groups payload)
    (hcarries' : Carries (hrpExpand name') groups' payload')
    (h : digest name groups = digest name' groups') : name = name' ∧ payload = payload' := by
  have hsplit : ∀ {n : List Char} (gs : Bytes), (∀ c ∈ n, isLowerHrpChar c = true) →
      Piggy.Markl.splitOnceAt (· = Piggy.Markl.Blech32.separator) (digest n gs) =
        some (n, gs.map Piggy.Markl.Blech32.charsetChar) := by
    intro n gs hn
    refine Piggy.Markl.splitOnceAt_append ?_ (decide_eq_true rfl) _
    intro c hc
    refine decide_eq_false ?_
    rintro rfl
    exact absurd (hn _ hc) (by decide)
  have heq := (hsplit groups hname).symm.trans (h ▸ hsplit groups' hname')
  obtain ⟨rfl, hgroups⟩ := Prod.mk.inj (Option.some.inj heq)
  have hread := Piggy.Markl.Blech32.decodeGroups_map hcarries.range 0
  rw [hgroups, Piggy.Markl.Blech32.decodeGroups_map hcarries'.range 0] at hread
  obtain rfl : groups' = groups := Except.ok.inj hread
  exact ⟨rfl, Except.ok.inj (hcarries.payload.symm.trans hcarries'.payload)⟩

/-- Two quotes in front of the join are read as an empty purpose. -/
theorem value_of_quotes {s body : List Char} {value : Option (List Char)} (h : Reads s value body)
    (hs : ∃ rest, s = '"' :: '"' :: '@' :: rest ∨ s = '\'' :: '\'' :: '@' :: rest) :
    value = some [] := by
  obtain ⟨rest, rfl | rfl⟩ := hs
  · have hempty : Reads ('"' :: '"' :: '@' :: rest) (some []) rest :=
      .inr ⟨['"', '"'], [], rfl, rfl, rfl⟩
    exact (reads_unique h hempty).1
  · have hempty : Reads ('\'' :: '\'' :: '@' :: rest) (some []) rest :=
      .inr ⟨['\'', '\''], [], rfl, rfl, rfl⟩
    exact (reads_unique h hempty).1

/-- Where both parsers accept a text they read the same parts, so only an empty purpose can
tell their results apart. -/
theorem same_iff {s : List Char} (hne : s ≠ []) {rust : Piggy.Markl.Id} {go : Id}
    (hrust : Piggy.Markl.Id.parse s = .ok rust) (hgo : set reg t (utf8 s) zero = (.ok (), go)) :
    Same rust go ↔
      ¬ ∃ body, s = '"' :: '"' :: '@' :: body ∨ s = '\'' :: '\'' :: '@' :: body := by
  obtain ⟨value, groups, hreads, hcarries, hpurpose⟩ := Piggy.Markl.Grammar.parse_eq_ok.mp hrust
  obtain ⟨value', name, groups', payload, f, hreads', hname, hlower, hcarries', hfits, rfl⟩ :=
    (set_eq_ok reg t hne).mp hgo
  obtain ⟨rfl, hdigest⟩ := reads_unique hreads hreads'
  obtain ⟨-, hasStr⟩ := Piggy.Markl.Id.asStr_chars rust.format
  obtain ⟨rfl, rfl⟩ := digest_unique (List.all_eq_true.mp hasStr) hlower hcarries hcarries' hdigest
  have hchars : ∀ c ∈ rust.format.asStr.toList, isHrpChar c = true := fun c hc =>
    (Bool.and_eq_true _ _ |>.mp (hlower c hc)).1
  have hformat : f = ⟨utf8 rust.format.asStr.toList, rust.format.size⟩ := by
    have hid := (lower_of_registered reg hfits.format hchars).1
    have hsize : f.size = rust.format.size := by
      rw [← hfits.size rust.data_ne_nil, rust.size]
    cases f
    simp only at hid hsize
    rw [hid, hsize]
  have hsame : Same rust ⟨purposeOf value, some f, rust.data⟩ ↔
      SamePurpose rust.purpose (purposeOf value) :=
    ⟨fun h => h.purpose, fun h => ⟨h, by rw [hformat], rfl⟩⟩
  rw [hsame, hpurpose]
  constructor
  · intro h hquotes
    rw [value_of_quotes hreads hquotes] at h
    exact h.2 rfl
  · intro hquotes
    obtain ⟨p, hparts, rfl⟩ := (reads_parts hname hlower hcarries.range).mp hreads
    cases p with
    | none => rfl
    | some p =>
      simp only [Option.map_some, SamePurpose, purposeOf, Option.getD_some,
        PurposeId.asStr_parse, String.toList_ofList]
      refine ⟨trivial, utf8_ne_nil ?_⟩
      exact fun hp => hquotes (slotValue_eq_nil hparts hp)

/-- The parsers conform on a text exactly when it is no bare checksum and has no empty
purpose. -/
theorem conforms_iff {s : List Char} (hne : s ≠ []) :
    Conforms reg t s ↔ ¬ IsBareChecksum reg s ∧ ¬ HasEmptyPurpose reg s := by
  have hok : ∀ {o : Outcome}, Succeeds o → o = (.ok (), o.2) := by
    intro o h
    exact Prod.ext h rfl
  rw [isBareChecksum_iff reg t hne]
  constructor
  · rintro ⟨-, -, hsame, -, hpayload⟩
    refine ⟨?_, ?_⟩
    · rintro ⟨id, hset, hdata⟩
      refine hpayload (congrArg Prod.fst hset) ?_
      rw [hset]
      exact hdata
    · rintro ⟨hquotes, hrust, hgo⟩
      obtain ⟨id, hparse⟩ := (Piggy.Markl.Grammar.parse_accepts hne).mpr hrust
      obtain ⟨go, hset, -⟩ := (go_accepts reg t hne).mp hgo
      have h := hsame id hparse (congrArg Prod.fst hset)
      rw [hset] at h
      exact (same_iff reg t hne hparse hset).mp h hquotes
  · rintro ⟨hbare, hempty⟩
    have hdata : ∀ {id}, set reg t (utf8 s) zero = (.ok (), id) → id.data ≠ [] :=
      fun hset hd => hbare ⟨_, hset, hd⟩
    refine ⟨Piggy.Markl.Grammar.parse_accepts hne, ?_, ?_, fun id _ => id.data_ne_nil,
      fun h => hdata (hok h)⟩
    · rw [go_accepts reg t hne]
      constructor
      · exact fun h => ⟨_, hok h, hdata (hok h)⟩
      · rintro ⟨id, hset, -⟩
        exact congrArg Prod.fst hset
    · intro id hparse hset
      refine (same_iff reg t hne hparse (hok hset)).mpr ?_
      intro hquotes
      exact hempty ⟨hquotes, (Piggy.Markl.Grammar.parse_accepts hne).mp ⟨id, hparse⟩,
        (go_accepts reg t hne).mpr ⟨_, hok hset, hdata (hok hset)⟩⟩

set_option maxRecDepth 20000 in
/-- An id with a purpose of its own conforms. -/
theorem conforms_iff_sample :
    Conforms production asciiTables
      "md@sha256-qqqqqqqqqqqqqqqqqqqqqqqqqqqqqqqqqqqqqqqqqqqqqqqqqqqqhtn2mr".toList := by
  refine (conforms_iff production asciiTables (by decide)).mpr ⟨?_, ?_⟩
  · intro h
    obtain ⟨id, hset, hdata⟩ := (isBareChecksum_iff production asciiTables (by decide)).mp h
    have hlen : (set production asciiTables (utf8
        "md@sha256-qqqqqqqqqqqqqqqqqqqqqqqqqqqqqqqqqqqqqqqqqqqqqqqqqqqqhtn2mr".toList)
        zero).2.data.length = 32 :=
      of_toList (p := fun s => (set production asciiTables (utf8 s) zero).2.data.length = 32)
        (by decide +kernel)
    rw [hset, hdata] at hlen
    cases hlen
  · rintro ⟨⟨body, h | h⟩, -⟩
    · exact absurd (congrArg List.head? h) (by simp)
    · exact absurd (congrArg List.head? h) (by simp)

/-- An id with an empty purpose. -/
def sampleEmpty : Piggy.Markl.Id where
  purpose := some (PurposeId.parse "")
  format := .sha256
  data := List.replicate 32 0
  size := rfl
  compatible := by
    rintro p ⟨⟩ hp
    cases hp

def sampleBody : List Char :=
  "sha256-qqqqqqqqqqqqqqqqqqqqqqqqqqqqqqqqqqqqqqqqqqqqqqqqqqqqhtn2mr".toList

set_option maxRecDepth 20000 in
theorem parse_sampleEmpty :
    Piggy.Markl.Id.parse ('"' :: '"' :: '@' :: sampleBody) = .ok sampleEmpty := by
  have hwire : sampleEmpty.toWire = '"' :: '"' :: '@' :: sampleBody := by decide +kernel
  rw [← hwire]
  apply Piggy.Markl.Id.parse_toWire_of_parsed
  intro p hp
  obtain rfl : PurposeId.parse "" = p := Option.some.inj hp
  rw [PurposeId.asStr_parse]

set_option maxRecDepth 20000 in
theorem set_sampleEmpty :
    set production asciiTables (utf8 ('"' :: '"' :: '@' :: sampleBody)) zero =
      (.ok (), ⟨[], some ⟨utf8 "sha256".toList, 32⟩, List.replicate 32 0⟩) := by
  have hreads : Reads ('"' :: '"' :: '@' :: sampleBody) (some []) sampleBody :=
    .inr ⟨['"', '"'], [], rfl, rfl, rfl⟩
  have hdec : Blech32.decodeString asciiTables (utf8 sampleBody) =
      .ok (utf8 "sha256".toList, List.replicate 32 0) := by
    decide +kernel
  rw [set_of_reads production asciiTables (by simp) hreads hdec]
  decide +kernel

set_option maxRecDepth 20000 in
/-- A checksum with no payload is taken for an id by one parser; an empty purpose in quotes is
a purpose to one and none to the other. -/
theorem not_conforms_samples :
    ¬ Conforms production asciiTables "sha256-a4ee6e".toList ∧
      ¬ Conforms production asciiTables ('"' :: '"' :: '@' :: sampleBody) := by
  refine ⟨?_, ?_⟩
  · intro h
    exact h.payload.2 (by decide) (by decide)
  · intro h
    have hsame := h.same sampleEmpty parse_sampleEmpty (congrArg Prod.fst set_sampleEmpty)
    have hpurpose := hsame.purpose
    rw [set_sampleEmpty] at hpurpose
    exact hpurpose.2 rfl

end Piggy.Go.Markl.Id
