import Mathlib.Data.Nat.Log
import Piggy.Piv.Attest

/-!
# Where the policy is read

A certificate is written from its fields, its extensions and what stands behind them. The policy
that is read from it is the one of the first extension with the identifier, whatever the other
bytes are, as long as the length of the certificate is one that the reader takes. From any other
bytes an error or a policy is read as well.
-/

namespace Piggy.Piv

open Piggy.Core Piggy.Box Piggy.Card

/-! ## Any bytes -/

open Checked (Answers)

namespace TlvReader

/-- A reader whose place is not behind its bytes. -/
def Inside (r : TlvReader) : Prop := r.pos ≤ r.data.length

theorem Inside.at_drop {r : TlvReader} (h : r.Inside) : r.At (r.data.drop r.pos) := ⟨h, rfl⟩

/-- A read of a list that leaves its end. -/
theorem answers_onto {α : Type} {r : TlvReader} (h : r.Inside) {x : Except PivError (α × Bytes)}
    (hx : ∀ a rest, x = .ok (a, rest) → ∃ used, r.data.drop r.pos = used ++ rest ∧ used ≠ []) :
    Answers (r.onto x) fun p => p.2.Inside ∧ p.2.data = r.data ∧ r.pos < p.2.pos := by
  rcases x with e | ⟨a, rest⟩
  · trivial
  · obtain ⟨used, hused, hne⟩ := hx a rest rfl
    have hlen := congrArg List.length hused
    have hpos := List.length_pos_iff.mpr hne
    rw [List.length_drop, List.length_append] at hlen
    have hinside : r.pos ≤ r.data.length := h
    refine ⟨Nat.sub_le _ _, rfl, ?_⟩
    show r.pos < r.data.length - rest.length
    omega

theorem answers_readTag {r : TlvReader} (h : r.Inside) :
    Answers r.readTag fun p => p.2.Inside ∧ p.2.data = r.data ∧ r.pos < p.2.pos := by
  rw [readTag_eq h.at_drop]
  exact answers_onto h fun tag rest => (contained _).tag tag rest

theorem answers_readValue {r : TlvReader} (h : r.Inside) :
    Answers r.readValue fun p => p.2.Inside ∧ p.2.data = r.data ∧ r.pos < p.2.pos := by
  rw [readValue_eq h.at_drop]
  refine answers_onto h fun value rest hread => ?_
  obtain ⟨header, hsplit, hne⟩ := (contained _).value value rest hread
  exact ⟨header ++ value, hsplit, fun h => hne (List.append_eq_nil_iff.mp h).1⟩

theorem inside_new (data : Bytes) : (new data).Inside := Nat.zero_le _

end TlvReader

open TlvReader

theorem answers_skipCritical {nextTag : Nat} {reader : TlvReader} (h : reader.Inside) :
    Answers (skipCritical nextTag reader) fun p => p.2.Inside := by
  rw [skipCritical]
  split
  · refine (answers_readValue h).bind ?_
    rintro ⟨_, reader⟩ ⟨hreader, -⟩
    exact (answers_readTag hreader).mono fun p hp => hp.1
  · exact h

theorem answers_tryParsePolicyExtension (body : Bytes) :
    Answers (tryParsePolicyExtension body) fun _ => True := by
  refine (answers_readTag (inside_new body)).bind ?_
  rintro ⟨oidTag, reader⟩ ⟨hreader, -⟩
  dsimp only
  split
  · trivial
  refine (answers_readValue hreader).bind ?_
  rintro ⟨oid, reader⟩ ⟨hreader, -⟩
  dsimp only
  split
  · trivial
  refine (answers_readTag hreader).bind ?_
  rintro ⟨nextTag, reader⟩ ⟨hreader, -⟩
  refine (answers_skipCritical hreader).bind ?_
  rintro ⟨nextTag, reader⟩ hreader
  dsimp only
  split
  · trivial
  refine (answers_readValue hreader).bind ?_
  rintro ⟨value, reader⟩ -
  dsimp only
  split <;> trivial

/-- A walk that reads a tag and a value a turn ends before its fuel does. -/
theorem answers_walkExtensions {fuel : Nat} {reader : TlvReader} (h : reader.Inside)
    (hfuel : reader.data.length - reader.pos < fuel) :
    Answers (walkExtensions fuel reader) fun _ => True := by
  induction fuel generalizing reader with
  | zero => exact absurd hfuel (Nat.not_lt_zero _)
  | succ fuel ih =>
    rw [walkExtensions]
    split
    · refine (answers_readTag h).bind ?_
      rintro ⟨tag, r⟩ ⟨hr, hdata, hpos⟩
      refine (answers_readValue hr).bind ?_
      rintro ⟨value, r'⟩ ⟨hr', hdata', hpos'⟩
      dsimp only at hr hdata hpos hr' hdata' hpos' ⊢
      have hinside : r'.pos ≤ r'.data.length := hr'
      have hless : r'.data.length - r'.pos < fuel := by
        rw [hdata', hdata] at hinside ⊢
        omega
      split
      · exact ih hr' hless
      · refine (answers_tryParsePolicyExtension value).bind ?_
        rintro (_ | policy) -
        · exact ih hr' hless
        · trivial
    · trivial

theorem answers_findPolicyInExtensions (wrapper : Bytes) :
    Answers (findPolicyInExtensions wrapper) fun _ => True := by
  refine (answers_readTag (inside_new wrapper)).bind ?_
  rintro ⟨tag, reader⟩ ⟨hreader, -⟩
  dsimp only
  split
  · trivial
  refine (answers_readValue hreader).bind ?_
  rintro ⟨extSeq, -⟩ -
  exact answers_walkExtensions (inside_new extSeq) (Nat.lt_succ_self _)

theorem answers_walkFields {fuel : Nat} {reader : TlvReader} (h : reader.Inside)
    (hfuel : reader.data.length - reader.pos < fuel) :
    Answers (walkFields fuel reader) fun _ => True := by
  induction fuel generalizing reader with
  | zero => exact absurd hfuel (Nat.not_lt_zero _)
  | succ fuel ih =>
    rw [walkFields]
    split
    · refine (answers_readTag h).bind ?_
      rintro ⟨tag, r⟩ ⟨hr, hdata, hpos⟩
      refine (answers_readValue hr).bind ?_
      rintro ⟨value, r'⟩ ⟨hr', hdata', hpos'⟩
      dsimp only at hr hdata hpos hr' hdata' hpos' ⊢
      have hinside : r'.pos ≤ r'.data.length := hr'
      split
      · exact answers_findPolicyInExtensions value
      · refine ih hr' ?_
        rw [hdata', hdata] at hinside ⊢
        omega
    · trivial

/-- From any bytes an error or a policy is read. -/
theorem answers_parsePolicy (certDer : Bytes) : Answers (parsePolicy certDer) fun _ => True := by
  have hbytes : Answers (findPolicyBytes certDer) fun _ => True := by
    refine (answers_readTag (inside_new certDer)).bind ?_
    rintro ⟨tag, reader⟩ ⟨hreader, -⟩
    dsimp only
    split
    · trivial
    refine (answers_readValue hreader).bind ?_
    rintro ⟨certBody, -⟩ -
    refine (answers_readTag (inside_new certBody)).bind ?_
    rintro ⟨tag, reader⟩ ⟨hreader, -⟩
    dsimp only
    split
    · trivial
    refine (answers_readValue hreader).bind ?_
    rintro ⟨tbs, -⟩ -
    exact answers_walkFields (inside_new tbs) (Nat.lt_succ_self _)
  refine hbytes.bind ?_
  rintro ⟨pin, touch⟩ -
  refine (Checked.answers_ofExcept fun _ _ => trivial : Answers _ fun _ => True).bind fun _ _ => ?_
  exact (Checked.answers_ofExcept fun _ _ => trivial : Answers _ fun _ => True).bind fun _ _ => trivial

/-! ## Certificates -/

/-- A length in as few bytes as there can be. -/
def derLength (n : Nat) : Option Bytes :=
  if n < 0x80 then some [UInt8.ofNat n]
  else
    let octets := Nat.log 256 n + 1
    if octets ≤ 126 then some (UInt8.ofNat (0x80 + octets) :: toBe octets n) else none

/-- A tag, the length of the contents, and the contents. -/
def element (tag contents : Bytes) : Option Bytes :=
  (derLength contents.length).map fun len => tag ++ (len ++ contents)

/-- A field of a certificate that is not the one of the extensions. -/
structure CertField where
  tag : Bytes
  contents : Bytes
  wellFormed : WellFormed tag
  other : tag ≠ [0xA3]

/-- An extension of a certificate. -/
structure CertExtension where
  oid : Bytes
  /-- The contents of the flag, when it is there. -/
  critical : Option Bytes
  value : Bytes

/-- A certificate with its extensions. -/
structure Certificate where
  before : List CertField
  extensions : Option (List CertExtension)
  after : List CertField
  /-- What stands behind the fields: an algorithm and a signature. -/
  behind : Bytes

/-- The element of a field. -/
def CertField.der (f : CertField) : Option Bytes := element f.tag f.contents

/-- The flag of an extension, when it is there. -/
def flagDer : Option Bytes → Option Bytes
  | some flag => element [0x01] flag
  | none => some []

/-- The contents of an extension. -/
def CertExtension.body (e : CertExtension) : Option Bytes := do
  let oid ← element [0x06] e.oid
  let critical ← flagDer e.critical
  let value ← element [0x04] e.value
  some (oid ++ (critical ++ value))

/-- The element of an extension. -/
def CertExtension.der (e : CertExtension) : Option Bytes := do
  let body ← e.body
  element [0x30] body

/-- Several elements behind each other. -/
def concatenated {α : Type} (der : α → Option Bytes) (as : List α) : Option Bytes :=
  (as.mapM der).map List.flatten

namespace Certificate

/-- The field of the extensions. -/
def extensionsDer : Option (List CertExtension) → Option Bytes
  | none => some []
  | some extensions => do
    let list ← concatenated CertExtension.der extensions
    let sequence ← element [0x30] list
    element [0xA3] sequence

/-- The fields of a certificate. -/
def fields (cert : Certificate) : Option Bytes := do
  let before ← concatenated CertField.der cert.before
  let extensions ← extensionsDer cert.extensions
  let after ← concatenated CertField.der cert.after
  some (before ++ (extensions ++ after))

/-- What stands in the outer sequence. -/
def contents (cert : Certificate) : Option Bytes := do
  let fields ← cert.fields
  let tbs ← element [0x30] fields
  some (tbs ++ cert.behind)

/-- The bytes of a certificate. -/
def der (cert : Certificate) : Option Bytes := do
  let contents ← cert.contents
  element [0x30] contents

/-- The first extension with the identifier. -/
def policyExtension (cert : Certificate) : Option CertExtension :=
  (cert.extensions.getD []).find? fun e => e.oid = YK_POLICY_OID_BODY

/-- The policies of two bytes that are known. -/
def knownPolicy (value : Bytes) : Option (PinPolicy × TouchPolicy) :=
  match value with
  | [pin, touch] => do
    let pin ← (PinPolicy.fromByte pin).toOption
    let touch ← (TouchPolicy.fromByte touch).toOption
    some (pin, touch)
  | _ => none

/-- The policy that a certificate attests to. -/
def policy (cert : Certificate) : Option (PinPolicy × TouchPolicy) :=
  cert.policyExtension.bind fun e => knownPolicy e.value

/-- The outer sequence is one whose length the reader takes. -/
def Fits (cert : Certificate) : Prop := ∀ contents ∈ cert.contents, contents.length < 2 ^ 24

end Certificate

/-! ## Reading what was written -/

/-- A length of up to three bytes is read back, and any other is refused. -/
theorem readLength_derLength {n : Nat} {len : Bytes} (h : derLength n = some len) (rest : Bytes) :
    (n < 2 ^ 24 ∧ Piv.readLength (len ++ rest) = .ok (n, rest)) ∨
      (2 ^ 24 ≤ n ∧ ∃ e, Piv.readLength (len ++ rest) = .error e) := by
  rw [derLength] at h
  split at h
  · next hshort =>
    cases h
    refine .inl ⟨by omega, ?_⟩
    rw [List.singleton_append, Piv.readLength, if_pos (and_0x80_of_lt hshort),
      toNat_ofNat_byte (by omega)]
  · next hlong =>
    dsimp only at h
    split at h
    · next hoctets =>
      cases h
      have hfirst : ∀ k ≤ 126, UInt8.ofNat (0x80 + k) &&& 0x80 ≠ 0 ∧
          (UInt8.ofNat (0x80 + k) &&& 0x7F).toNat = k := by decide
      obtain ⟨hbit, hcount⟩ := hfirst _ hoctets
      have hn : n < 256 ^ (Nat.log 256 n + 1) := Nat.lt_pow_succ_log_self (by decide) n
      by_cases hthree : Nat.log 256 n + 1 ≤ 3
      · refine .inl ⟨?_, ?_⟩
        · exact hn.trans_le (Nat.pow_le_pow_right (by decide) hthree)
        · rw [List.cons_append]
          exact readLength_long hbit hcount (Nat.succ_pos _) hthree hn rest
      · refine .inr ⟨?_, ?_⟩
        · have hlog : 3 ≤ Nat.log 256 n := by omega
          have hpow : 256 ^ 3 ≤ n := Nat.pow_le_of_le_log (by omega) hlog
          omega
        · rw [List.cons_append, Piv.readLength, if_neg hbit]
          dsimp only
          rw [hcount, if_pos (by omega)]
          exact ⟨_, rfl⟩
    · cases h

namespace TlvReader

/-- An element in front of a reader: its tag, and its contents if they are short enough. -/
theorem At.split_element {r : TlvReader} {tag contents e rest : Bytes} (he : element tag contents = some e)
    (htag : WellFormed tag) (h : r.At (e ++ rest)) :
    ∃ r', r.readTag = .ok (ofBe tag % 2 ^ 32, r') ∧
      ((contents.length < 2 ^ 24 ∧ ∃ r'', r'.readValue = .ok (contents, r'') ∧ r''.At rest) ∨
        (2 ^ 24 ≤ contents.length ∧ ∃ message, r'.readValue = .failed message)) := by
  obtain ⟨len, hlen, rfl⟩ := Option.map_eq_some_iff.mp he
  have hsplit : tag ++ (len ++ contents) ++ rest = tag ++ (len ++ (contents ++ rest)) := by
    simp only [List.append_assoc]
  rw [hsplit] at h
  have hread := readTag_eq h
  rw [readTag_append htag, ← h.eq_onto] at hread
  refine ⟨_, hread, ?_⟩
  have hat := h.moved
  have hvalue := readValue_eq hat
  rw [Piv.readValue] at hvalue
  rcases readLength_derLength hlen (contents ++ rest) with ⟨hshort, hok⟩ | ⟨hlong, e, herr⟩
  · rw [hok, ok_bind] at hvalue
    dsimp only at hvalue
    rw [if_neg (by simp), List.take_left, List.drop_left] at hvalue
    rw [← List.append_assoc] at hat
    exact .inl ⟨hshort, _, hvalue, hat.onto_at⟩
  · rw [herr] at hvalue
    exact .inr ⟨hlong, _, hvalue⟩

/-- An element with contents that are short enough. -/
theorem At.read_element {r : TlvReader} {tag contents e rest : Bytes}
    (he : element tag contents = some e) (htag : WellFormed tag) (hshort : contents.length < 2 ^ 24)
    (h : r.At (e ++ rest)) : ∃ r' r'', r.readTag = .ok (ofBe tag % 2 ^ 32, r') ∧
      r'.readValue = .ok (contents, r'') ∧ r''.At rest := by
  obtain ⟨r', htagRead, ⟨-, r'', hvalue, hat⟩ | ⟨hlong, -⟩⟩ := h.split_element he htag
  · exact ⟨r', r'', htagRead, hvalue, hat⟩
  · omega

end TlvReader

/-! ## The walks over what was written -/

theorem concatenated_cons {α : Type} {der : α → Option Bytes} {a : α} {as : List α} {out : Bytes}
    (h : concatenated der (a :: as) = some out) :
    ∃ first rest, der a = some first ∧ concatenated der as = some rest ∧ out = first ++ rest := by
  simp only [concatenated, List.mapM_cons, Option.map_eq_some_iff, Option.bind_eq_bind,
    Option.bind_eq_some_iff, Option.pure_def, Option.some.injEq] at h ⊢
  obtain ⟨parts, ⟨first, hfirst, rest, hrest, rfl⟩, rfl⟩ := h
  exact ⟨first, rest.flatten, hfirst, ⟨rest, hrest, rfl⟩, rfl⟩

theorem concatenated_nil {α : Type} {der : α → Option Bytes} {out : Bytes}
    (h : concatenated der [] = some out) : out = [] := by
  cases h
  rfl

/-- An element is longer than its contents. -/
theorem element_length {tag contents e : Bytes} (h : element tag contents = some e) :
    contents.length < e.length := by
  obtain ⟨len, hlen, rfl⟩ := Option.map_eq_some_iff.mp h
  have hne : len ≠ [] := by
    rintro rfl
    unfold derLength at hlen
    split at hlen
    · cases hlen
    · dsimp only at hlen
      split at hlen <;> cases hlen
  have hpos := List.length_pos_iff.mpr hne
  rw [List.length_append, List.length_append]
  omega

/-- What is read from the value of the extension. -/
def valueBytes (value : Bytes) : Option (UInt8 × UInt8) :=
  match value with
  | [pin, touch] => some (pin, touch)
  | _ => none

/-- One extension: another one is skipped, and of the one its two bytes are read. -/
theorem tryParsePolicyExtension_body {e : CertExtension} {body : Bytes} (h : e.body = some body)
    (hshort : body.length < 2 ^ 24) :
    (e.oid ≠ YK_POLICY_OID_BODY ∧ tryParsePolicyExtension body = .ok none) ∨
      (e.oid = YK_POLICY_OID_BODY ∧
        ((∃ policy, valueBytes e.value = some policy ∧
            tryParsePolicyExtension body = .ok (some policy)) ∨
          (valueBytes e.value = none ∧ ∃ message, tryParsePolicyExtension body = .failed message))) := by
  simp only [CertExtension.body, Option.bind_eq_bind, Option.bind_eq_some_iff, Option.some.injEq] at h
  obtain ⟨oid, hoid, critical, hcritical, value, hvalue, rfl⟩ := h
  rw [List.length_append, List.length_append] at hshort
  have hoidLength := element_length hoid
  have hvalueLength := element_length hvalue
  have htag : WellFormed [0x06] := .single (by decide)
  obtain ⟨r, r', hread, hoidRead, hat⟩ :=
    (TlvReader.at_new _).read_element hoid htag (by omega)
  rw [tryParsePolicyExtension, hread, Checked.ok_bind]
  dsimp only
  rw [if_neg (by decide), hoidRead, Checked.ok_bind]
  dsimp only
  by_cases hpolicy : e.oid = YK_POLICY_OID_BODY
  · refine .inr ⟨hpolicy, ?_⟩
    rw [if_neg (not_not.mpr hpolicy)]
    -- The flag is skipped when it is there.
    have hskip : ∃ tag r₁ r₂, r'.readTag = .ok (tag, r₁) ∧ skipCritical tag r₁ = .ok (0x04, r₂) ∧
        ∃ r₃, r₂.readValue = .ok (e.value, r₃) := by
      have hvalueTag : WellFormed [0x04] := .single (by decide)
      rw [← List.append_nil value] at hat
      rcases hflag : e.critical with _ | flag
      · rw [hflag] at hcritical
        cases hcritical
        obtain ⟨r₁, r₂, htagRead, hvalueRead, -⟩ := hat.read_element hvalue hvalueTag (by omega)
        exact ⟨0x04, r₁, r₁, htagRead, if_neg (by decide), r₂, hvalueRead⟩
      · rw [hflag] at hcritical
        have hflagLength := element_length hcritical
        have hflagTag : WellFormed [0x01] := .single (by decide)
        obtain ⟨r₁, r₂, htagRead, hflagRead, hat⟩ := hat.read_element hcritical hflagTag (by omega)
        obtain ⟨r₃, r₄, hnextRead, hvalueRead, -⟩ := hat.read_element hvalue hvalueTag (by omega)
        refine ⟨0x01, r₁, r₃, htagRead, ?_, r₄, hvalueRead⟩
        rw [skipCritical, if_pos rfl, hflagRead]
        exact hnextRead
    obtain ⟨tag, r₁, r₂, htagRead, hskipped, r₃, hvalueRead⟩ := hskip
    rw [htagRead, Checked.ok_bind]
    dsimp only
    rw [hskipped, Checked.ok_bind]
    dsimp only
    rw [if_neg (by decide), hvalueRead, Checked.ok_bind]
    dsimp only
    split
    · next pin touch heq => exact .inl ⟨(pin, touch), by rw [heq]; rfl, rfl⟩
    · next hother =>
      refine .inr ⟨?_, _, rfl⟩
      unfold valueBytes
      split
      · next pin touch heq => exact absurd heq (hother pin touch)
      · rfl
  · exact .inl ⟨hpolicy, if_pos hpolicy⟩

/-- The walk over the extensions comes to the first one with the identifier. -/
theorem walkExtensions_written {extensions : List CertExtension} {list : Bytes}
    (h : concatenated CertExtension.der extensions = some list) (hshort : list.length < 2 ^ 24)
    {fuel : Nat} (hfuel : list.length < fuel) {r : TlvReader} (hr : r.At list)
    (policy : UInt8 × UInt8) :
    walkExtensions fuel r = .ok policy ↔
      (extensions.find? fun e => e.oid = YK_POLICY_OID_BODY).bind (fun e => valueBytes e.value) =
        some policy := by
  induction extensions generalizing fuel r list with
  | nil =>
    obtain rfl := concatenated_nil h
    obtain ⟨fuel, rfl⟩ := Nat.exists_eq_succ_of_ne_zero (Nat.ne_of_gt hfuel)
    have hend : r.hasRemaining = false := decide_eq_false (Nat.not_lt.mpr (hr.nil_iff.mpr rfl))
    rw [walkExtensions, hend]
    exact ⟨nofun, nofun⟩
  | cons e extensions ih =>
    obtain ⟨first, rest, hfirst, hrest, rfl⟩ := concatenated_cons h
    obtain ⟨fuel, rfl⟩ := Nat.exists_eq_succ_of_ne_zero (Nat.ne_of_gt (Nat.zero_lt_of_lt hfuel))
    obtain ⟨body, hbody, helement⟩ := Option.bind_eq_some_iff.mp hfirst
    have hlength := element_length helement
    rw [List.length_append] at hshort hfuel
    have htag : WellFormed [0x30] := .single (by decide)
    obtain ⟨r₁, r₂, htagRead, hvalueRead, hat⟩ := hr.read_element helement htag (by omega)
    have hmore : r.hasRemaining = true := by
      have hlen := hr.length
      rw [List.length_append] at hlen
      exact decide_eq_true (by omega)
    rw [walkExtensions, if_pos hmore, htagRead, Checked.ok_bind]
    dsimp only
    rw [hvalueRead, Checked.ok_bind]
    dsimp only
    rw [if_neg (by decide)]
    rcases tryParsePolicyExtension_body hbody (by omega) with
      ⟨hother, hskip⟩ | ⟨hpolicy, ⟨found, hvalue, hparsed⟩ | ⟨hvalue, message, hparsed⟩⟩
    · rw [hskip, Checked.ok_bind, List.find?_cons_of_neg (by simpa using hother)]
      exact ih hrest (by omega) (by omega) hat
    · rw [hparsed, Checked.ok_bind, List.find?_cons_of_pos (by simpa using hpolicy), Option.bind_some,
        hvalue]
      simp
    · rw [hparsed, Checked.failed_bind, List.find?_cons_of_pos (by simpa using hpolicy),
        Option.bind_some, hvalue]
      exact ⟨nofun, nofun⟩

/-- A field that is not the one of the extensions has another tag. -/
theorem CertField.tag_ne (f : CertField) : ofBe f.tag % 2 ^ 32 ≠ 0xA3 := by
  intro htag
  have hext : WellFormed [0xA3] := .single (by decide)
  have hequal : ReadEqual f.tag [0xA3] := by
    refine ⟨0xA3, [], [], ?_, ?_⟩
    · rw [readTag_append f.wellFormed, htag]
    · rw [readTag_append hext]
      rfl
  have hlast := (readEqual_iff f.wellFormed hext).mp hequal
  have hlength := congrArg List.length hlast
  rw [lastFour_of_short (by decide : ([0xA3] : Bytes).length ≤ 4)] at hlast hlength
  have hshort : f.tag.length ≤ 4 := by
    rw [lastFour, List.length_drop] at hlength
    have hone : ([0xA3] : Bytes).length = 1 := rfl
    omega
  exact f.other (by rw [← lastFour_of_short hshort, hlast])

/-- The walk over the fields passes every field that is not the one of the extensions. -/
theorem walkFields_written {fields : List CertField} {written rest : Bytes}
    (h : concatenated CertField.der fields = some written)
    (hshort : (written ++ rest).length < 2 ^ 24) {fuel : Nat}
    (hfuel : (written ++ rest).length < fuel) {r : TlvReader} (hr : r.At (written ++ rest)) :
    ∃ fuel' r', walkFields fuel r = walkFields fuel' r' ∧ rest.length < fuel' ∧ r'.At rest := by
  induction fields generalizing fuel r written with
  | nil =>
    obtain rfl := concatenated_nil h
    exact ⟨fuel, r, rfl, hfuel, hr⟩
  | cons f fields ih =>
    obtain ⟨first, more, hfirst, hmore, rfl⟩ := concatenated_cons h
    obtain ⟨fuel, rfl⟩ := Nat.exists_eq_succ_of_ne_zero (Nat.ne_of_gt (Nat.zero_lt_of_lt hfuel))
    have hlength := element_length hfirst
    rw [List.append_assoc] at hshort hfuel hr
    rw [List.length_append] at hshort hfuel
    obtain ⟨r₁, r₂, htagRead, hvalueRead, hat⟩ := hr.read_element hfirst f.wellFormed (by omega)
    have hremaining : r.hasRemaining = true := by
      have hlen := hr.length
      rw [List.length_append] at hlen
      exact decide_eq_true (by omega)
    obtain ⟨fuel', r', hwalk, hfuel', hat'⟩ := ih hmore (by omega) (by omega : _ < fuel) hat
    refine ⟨fuel', r', ?_, hfuel', hat'⟩
    rw [walkFields, if_pos hremaining, htagRead, Checked.ok_bind]
    dsimp only
    rw [hvalueRead, Checked.ok_bind]
    dsimp only
    rw [if_neg f.tag_ne, hwalk]

/-- The bytes that are found in a certificate that fits. -/
theorem findPolicyBytes_written {cert : Certificate} {der : Bytes} (h : cert.der = some der)
    (hfits : cert.Fits) (policy : UInt8 × UInt8) :
    findPolicyBytes der = .ok policy ↔
      cert.policyExtension.bind (fun e => valueBytes e.value) = some policy := by
  obtain ⟨contents, hcontents, hder⟩ := Option.bind_eq_some_iff.mp h
  have hshort := hfits contents hcontents
  obtain ⟨fields, hfields, hcontents⟩ := Option.bind_eq_some_iff.mp hcontents
  obtain ⟨tbs, htbs, hcontents⟩ := Option.bind_eq_some_iff.mp hcontents
  cases hcontents
  have htag : WellFormed [0x30] := .single (by decide)
  have htbsLength := element_length htbs
  rw [List.length_append] at hshort
  -- The two sequences around the fields.
  have houter : (TlvReader.new der).At (der ++ []) := by
    rw [List.append_nil]
    exact TlvReader.at_new der
  obtain ⟨r₁, r₂, htagRead, hvalueRead, -⟩ :=
    houter.read_element hder htag (by rw [List.length_append]; omega)
  obtain ⟨r₃, r₄, htagRead', hvalueRead', -⟩ :=
    (TlvReader.at_new (tbs ++ cert.behind)).read_element htbs htag (by omega)
  rw [findPolicyBytes, htagRead, Checked.ok_bind]
  dsimp only
  rw [if_neg (by decide), hvalueRead, Checked.ok_bind]
  dsimp only
  rw [htagRead', Checked.ok_bind]
  dsimp only
  rw [if_neg (by decide), hvalueRead', Checked.ok_bind]
  dsimp only
  -- The fields in front of the extensions.
  simp only [Certificate.fields, Option.bind_eq_bind, Option.bind_eq_some_iff,
    Option.some.injEq] at hfields
  obtain ⟨before, hbefore, extensions, hextensions, after, hafter, rfl⟩ := hfields
  obtain ⟨fuel, r, hwalk, hfuel, hat⟩ := walkFields_written hbefore (by omega)
    (Nat.lt_succ_self _) (TlvReader.at_new (before ++ (extensions ++ after)))
  rw [List.length_append] at htbsLength
  rw [hwalk]
  rcases hlist : cert.extensions with _ | list
  · rw [hlist] at hextensions
    cases hextensions
    rw [← List.append_nil after, List.nil_append] at hat hfuel
    rw [List.nil_append] at htbsLength
    obtain ⟨fuel, r, hwalk, hfuel, hat⟩ := walkFields_written hafter
      (by rw [List.append_nil]; omega) hfuel hat
    obtain ⟨fuel, rfl⟩ := Nat.exists_eq_succ_of_ne_zero (Nat.ne_of_gt hfuel)
    have hend : r.hasRemaining = false := decide_eq_false (Nat.not_lt.mpr (hat.nil_iff.mpr rfl))
    rw [hwalk, walkFields, hend, Certificate.policyExtension, hlist]
    exact ⟨nofun, nofun⟩
  · rw [hlist] at hextensions
    simp only [Certificate.extensionsDer, Option.bind_eq_bind, Option.bind_eq_some_iff] at hextensions
    obtain ⟨bytes, hbytes, sequence, hsequence, hfield⟩ := hextensions
    have hbytesLength := element_length hsequence
    have hsequenceLength := element_length hfield
    rw [List.length_append] at htbsLength hfuel
    obtain ⟨fuel, rfl⟩ := Nat.exists_eq_succ_of_ne_zero (Nat.ne_of_gt (Nat.zero_lt_of_lt hfuel))
    have hext : WellFormed [0xA3] := .single (by decide)
    obtain ⟨r₅, r₆, htagRead, hvalueRead, -⟩ := hat.read_element hfield hext (by omega)
    have hremaining : r.hasRemaining = true := by
      have hlen := hat.length
      rw [List.length_append] at hlen
      exact decide_eq_true (by omega)
    rw [walkFields, if_pos hremaining, htagRead, Checked.ok_bind]
    dsimp only
    rw [hvalueRead, Checked.ok_bind]
    dsimp only
    have hinner : (TlvReader.new sequence).At (sequence ++ []) := by
      rw [List.append_nil]
      exact TlvReader.at_new sequence
    obtain ⟨r₇, r₈, htagRead, hvalueRead, -⟩ := hinner.read_element hsequence htag (by omega)
    rw [if_pos (by decide), findPolicyInExtensions, htagRead, Checked.ok_bind]
    dsimp only
    rw [if_neg (by decide), hvalueRead, Checked.ok_bind]
    dsimp only
    rw [walkExtensions_written hbytes (by omega) (Nat.lt_succ_self _) (TlvReader.at_new bytes),
      Certificate.policyExtension, hlist, Option.getD_some]

/-- A certificate that does not fit is refused. -/
theorem parsePolicy_large {cert : Certificate} {der : Bytes} (h : cert.der = some der)
    (hlarge : ¬ cert.Fits) (p : PinPolicy × TouchPolicy) : parsePolicy der ≠ .ok p := by
  obtain ⟨contents, hcontents, hder⟩ := Option.bind_eq_some_iff.mp h
  have htag : WellFormed [0x30] := .single (by decide)
  have houter : (TlvReader.new der).At (der ++ []) := by
    rw [List.append_nil]
    exact TlvReader.at_new der
  obtain ⟨r, htagRead, ⟨hshort, -⟩ | ⟨-, message, hrefused⟩⟩ := houter.split_element hder htag
  · refine absurd ?_ hlarge
    intro contents' hcontents'
    obtain rfl := Option.some.inj (hcontents.symm.trans hcontents')
    exact hshort
  · rw [parsePolicy, findPolicyBytes, htagRead, Checked.ok_bind]
    dsimp only
    rw [if_neg (by decide), hrefused]
    exact nofun

/-- The policies of the bytes that are found. -/
theorem parsePolicy_ok {certDer : Bytes} {p : PinPolicy × TouchPolicy} :
    parsePolicy certDer = .ok p ↔ ∃ v : UInt8 × UInt8, findPolicyBytes certDer = .ok v ∧
      Certificate.knownPolicy [v.1, v.2] = some p := by
  rw [parsePolicy]
  rcases hbytes : findPolicyBytes certDer with _ | message | ⟨pin, touch⟩
  · exact ⟨nofun, fun ⟨_, h, _⟩ => nomatch h⟩
  · exact ⟨nofun, fun ⟨_, h, _⟩ => nomatch h⟩
  · have hknown : Certificate.knownPolicy [pin, touch] =
        (PinPolicy.fromByte pin).toOption.bind fun a =>
          (TouchPolicy.fromByte touch).toOption.bind fun b => some (a, b) := rfl
    rw [Checked.ok_bind]
    dsimp only
    constructor
    · intro h
      refine ⟨(pin, touch), rfl, ?_⟩
      rw [hknown]
      revert h
      rcases PinPolicy.fromByte pin with e | a
      · exact nofun
      · rcases TouchPolicy.fromByte touch with e | b
        · exact nofun
        · rintro ⟨⟩
          rfl
    · rintro ⟨⟨pin', touch'⟩, hfound, hpolicy⟩
      cases hfound
      rw [hknown] at hpolicy
      revert hpolicy
      rcases PinPolicy.fromByte pin with e | a
      · exact nofun
      · rcases TouchPolicy.fromByte touch with e | b
        · exact nofun
        · rintro ⟨⟩
          rfl

theorem knownPolicy_valueBytes {value : Bytes} {p : PinPolicy × TouchPolicy} :
    Certificate.knownPolicy value = some p ↔
      ∃ v, valueBytes value = some v ∧ Certificate.knownPolicy [v.1, v.2] = some p := by
  constructor
  · intro h
    unfold Certificate.knownPolicy at h
    split at h
    · next pin touch => exact ⟨(pin, touch), rfl, h⟩
    · cases h
  · rintro ⟨⟨pin, touch⟩, hvalue, hknown⟩
    unfold valueBytes at hvalue
    split at hvalue
    · cases hvalue
      exact hknown
    · cases hvalue

/-- From a certificate the policy of the first extension with the identifier is read, and no
policy if the extension or one of its bytes is not known or if the certificate is too long. Any
other bytes are read to an end as well. -/
theorem parsePolicy_written {cert : Certificate} {der : Bytes} (h : cert.der = some der)
    (bytes : Bytes) :
    (∀ p, parsePolicy der = .ok p ↔ cert.Fits ∧ cert.policy = some p) ∧
      parsePolicy bytes ≠ .stopped := by
  refine ⟨?_, ?_⟩
  · intro p
    by_cases hfits : cert.Fits
    · rw [parsePolicy_ok]
      simp only [findPolicyBytes_written h hfits, hfits, true_and, Certificate.policy,
        Option.bind_eq_some_iff]
      constructor
      · rintro ⟨v, ⟨e, he, hv⟩, hknown⟩
        exact ⟨e, he, knownPolicy_valueBytes.mpr ⟨v, hv, hknown⟩⟩
      · rintro ⟨e, he, hknown⟩
        obtain ⟨v, hv, hknown⟩ := knownPolicy_valueBytes.mp hknown
        exact ⟨v, ⟨e, he, hv⟩, hknown⟩
    · exact ⟨fun hok => absurd hok (parsePolicy_large h hfits p), fun hok => absurd hok.1 hfits⟩
  · intro hstopped
    have hanswers := answers_parsePolicy bytes
    rw [hstopped] at hanswers
    exact hanswers

/-- A subject that holds the bytes of a policy extension, and the extension behind it. -/
def sampleCertificate : Certificate where
  before := [⟨[0x31], [0x30, 0x10, 0x06, 0x0A, 0x2B, 0x06, 0x01, 0x04, 0x01, 0x82, 0xC4, 0x0A, 0x03,
    0x08, 0x04, 0x02, 0x01, 0x01], .single (by decide), by decide⟩]
  extensions := some [⟨[0x55, 0x1D, 0x0F], some [0xFF], [0x03]⟩, ⟨YK_POLICY_OID_BODY, none, [0x03, 0x02]⟩]
  after := []
  behind := [0x03, 0x01, 0x00]

theorem parsePolicy_written_sample :
    ∃ der, sampleCertificate.der = some der ∧ sampleCertificate.policy = some (.always, .always) ∧
      (∀ p, parsePolicy der = .ok p ↔ sampleCertificate.Fits ∧ sampleCertificate.policy = some p) ∧
        parsePolicy [] ≠ .stopped :=
  ⟨_, rfl, by decide, parsePolicy_written rfl []⟩

/-! ## Long certificates -/

theorem element_isSome (tag : Bytes) {contents : Bytes} (h : contents.length < 2 ^ 32) :
    ∃ e, element tag contents = some e ∧ e.length ≤ tag.length + 127 + contents.length := by
  have hlength : ∃ len, derLength contents.length = some len ∧ len.length ≤ 127 := by
    rw [derLength]
    split
    · exact ⟨_, rfl, by simp⟩
    · have hlog : Nat.log 256 contents.length + 1 ≤ 126 :=
        Nat.log_lt_of_lt_pow (by omega) (h.trans_le (by decide))
      refine ⟨_, if_pos hlog, ?_⟩
      rw [List.length_cons, length_toBe]
      omega
  obtain ⟨len, hlen, hshort⟩ := hlength
  refine ⟨tag ++ (len ++ contents), by rw [element, hlen]; rfl, ?_⟩
  rw [List.length_append, List.length_append]
  omega

/-- The contents of a field of the greatest length. -/
def longContents : Bytes := List.replicate (2 ^ 24 - 1) 0

theorem length_longContents : longContents.length = 2 ^ 24 - 1 := List.length_replicate

/-- A long field, and a known policy. -/
def longCertificate : Certificate where
  before := [⟨[0x04], longContents, .single (by decide), by decide⟩]
  extensions := some [⟨YK_POLICY_OID_BODY, none, [0x03, 0x02]⟩]
  after := []
  behind := []

/-- With a length of four bytes around it nothing is read. -/
theorem not_parsePolicy_long :
    ∃ der, longCertificate.der = some der ∧
      (∀ f ∈ longCertificate.before, f.contents.length < 2 ^ 24) ∧
      longCertificate.policy = some (.always, .always) ∧
      parsePolicy der ≠ .ok (.always, .always) := by
  have hsize := length_longContents
  obtain ⟨field, hfield, hfieldLength⟩ := element_isSome [0x04]
    (show longContents.length < 2 ^ 32 by rw [hsize]; decide)
  have hextensions : ∃ extensions, Certificate.extensionsDer longCertificate.extensions =
      some extensions ∧ extensions.length = 22 := ⟨_, rfl, rfl⟩
  obtain ⟨extensions, hextensions, hextensionsLength⟩ := hextensions
  have hfields : longCertificate.fields = some (field ++ (extensions ++ [])) := by
    have hbefore : concatenated CertField.der longCertificate.before = some field := by
      simp [concatenated, longCertificate, CertField.der, hfield]
    rw [Certificate.fields, hbefore, hextensions]
    rfl
  have hone : ([0x04] : Bytes).length = 1 := rfl
  rw [hsize, hone] at hfieldLength
  obtain ⟨tbs, htbs, htbsLength⟩ := element_isSome [0x30]
    (show (field ++ (extensions ++ [])).length < 2 ^ 32 by simp; omega)
  have hcontents : longCertificate.contents = some (tbs ++ []) := by
    rw [Certificate.contents, hfields]
    simp only [Option.bind_eq_bind, Option.bind_some, htbs]
    rfl
  have hbytes : (field ++ (extensions ++ [])).length = field.length + 22 := by
    simp [hextensionsLength]
  have hone' : ([0x30] : Bytes).length = 1 := rfl
  rw [hbytes, hone'] at htbsLength
  obtain ⟨der, hder, -⟩ := element_isSome [0x30]
    (show (tbs ++ []).length < 2 ^ 32 by rw [List.append_nil]; omega)
  have hwritten : longCertificate.der = some der := by
    rw [Certificate.der, hcontents]
    exact hder
  have hlarge : ¬ longCertificate.Fits := by
    intro hfits
    have hshort := hfits _ hcontents
    have hinner := element_length hfield
    have houter := element_length htbs
    rw [hbytes] at houter
    rw [hsize] at hinner
    rw [List.append_nil] at hshort
    omega
  refine ⟨der, hwritten, ?_, by decide, parsePolicy_large hwritten hlarge _⟩
  intro f hf
  obtain rfl := List.mem_singleton.mp hf
  exact hsize.trans_lt (by decide)

end Piggy.Piv
