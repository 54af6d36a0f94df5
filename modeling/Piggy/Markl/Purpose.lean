import Piggy.Markl.Format

/-!
# Purposes

The purposes a markl id may be tagged with, the formats each of them accepts, and
how a purpose is spelled in front of the `@` join: bare where the bare charset
allows it, quoted otherwise.
-/

namespace Piggy.Markl

/-- Purpose id; one that is not enumerated is carried as it is spelled. -/
inductive PurposeId where
  | piggyRecipientV1
  | piggyPivAuthV1
  | piggyPivSigV1
  | piggyPivCardAuthV1
  | papiDocSigV1
  | pigpenWrapV1
  | pigpenDocV1
  | piggyRecordDigestV1
  | piggyRecordSigV1
  | dodderBlobDigestSha256V1
  | dodderObjectDigestV2
  | dodderObjectSigV2
  | dodderRepoPublicKeyV1
  | dodderRepoPrivateKeyV1
  | other (name : String)
  deriving DecidableEq

namespace PurposeId

/-- Wire name of a purpose. -/
def asStr : PurposeId → String
  | piggyRecipientV1 => "piggy-recipient-v1"
  | piggyPivAuthV1 => "piggy-piv_auth-v1"
  | piggyPivSigV1 => "piggy-piv_sig-v1"
  | piggyPivCardAuthV1 => "piggy-piv_card_auth-v1"
  | papiDocSigV1 => "papi-doc-sig-v1"
  | pigpenWrapV1 => "pigpen-wrap-v1"
  | pigpenDocV1 => "pigpen-doc-v1"
  | piggyRecordDigestV1 => "piggy-record-digest-v1"
  | piggyRecordSigV1 => "piggy-record-sig-v1"
  | dodderBlobDigestSha256V1 => "dodder-blob-digest-sha256-v1"
  | dodderObjectDigestV2 => "dodder-object-digest-v2"
  | dodderObjectSigV2 => "dodder-object-sig-v2"
  | dodderRepoPublicKeyV1 => "dodder-repo-public_key-v1"
  | dodderRepoPrivateKeyV1 => "dodder-repo-private_key-v1"
  | other name => name

/-- The purpose that a name stands for. -/
def parse (s : String) : PurposeId :=
  match s with
  | "piggy-recipient-v1" => piggyRecipientV1
  | "piggy-piv_auth-v1" => piggyPivAuthV1
  | "piggy-piv_sig-v1" => piggyPivSigV1
  | "piggy-piv_card_auth-v1" => piggyPivCardAuthV1
  | "papi-doc-sig-v1" => papiDocSigV1
  | "pigpen-wrap-v1" => pigpenWrapV1
  | "pigpen-doc-v1" => pigpenDocV1
  | "piggy-record-digest-v1" => piggyRecordDigestV1
  | "piggy-record-sig-v1" => piggyRecordSigV1
  | "dodder-blob-digest-sha256-v1" => dodderBlobDigestSha256V1
  | "dodder-object-digest-v2" => dodderObjectDigestV2
  | "dodder-object-sig-v2" => dodderObjectSigV2
  | "dodder-repo-public_key-v1" => dodderRepoPublicKeyV1
  | "dodder-repo-private_key-v1" => dodderRepoPrivateKeyV1
  | name => other name

/-- The name of a purpose that a name stands for is that name. -/
theorem asStr_parse (s : String) : (parse s).asStr = s := by
  unfold parse
  split <;> rfl

/-- Whether a purpose accepts a format; one that is not enumerated accepts none. -/
def accepts : PurposeId → FormatId → Bool
  | piggyRecipientV1, format => (format matches .pivyEcdhP256Pub | .ageX25519Pub)
  | piggyPivAuthV1, format | piggyPivSigV1, format | piggyPivCardAuthV1, format =>
    (format matches .sshEcdsaNistp256Pub | .sshEd25519Pub | .sshEcdsaNistp384Pub)
  | papiDocSigV1, format => (format matches .ecdsaP256Sig)
  | pigpenWrapV1, format => (format matches .pigpenWrapP256 | .pigpenWrapX25519)
  | pigpenDocV1, format => (format matches .pigpenHeaderMac | .blake2b256)
  | piggyRecordDigestV1, format | dodderBlobDigestSha256V1, format
  | dodderObjectDigestV2, format => (format matches .sha256 | .blake2b256)
  | piggyRecordSigV1, format | dodderObjectSigV2, format =>
    (format matches .ed25519Sig | .ecdsaP256Sig)
  | dodderRepoPublicKeyV1, format => (format matches .ed25519Pub | .ecdsaP256Pub)
  | dodderRepoPrivateKeyV1, format => (format matches .ed25519Sec | .ed25519Ssh | .ecdsaP256Ssh)
  | other _, _ => false

/-- The spelling `{:?}` gives a character of a string: the escapes of the language, and
control characters by their number. -/
def debugChar (c : Char) : String :=
  if c = '\x00' then "\\0"
  else if c = '\t' then "\\t"
  else if c = '\r' then "\\r"
  else if c = '\n' then "\\n"
  else if c = '"' then "\\\""
  else if c = '\\' then "\\\\"
  else if c.toNat < 0x20 ∨ (0x7f ≤ c.toNat ∧ c.toNat < 0xa0) then
    "\\u\x7b" ++ String.ofList (Nat.toDigits 16 c.toNat) ++ "\x7d"
  else String.singleton c

/-- The name `{:?}` prints for a purpose. -/
def debugName : PurposeId → String
  | piggyRecipientV1 => "PiggyRecipientV1"
  | piggyPivAuthV1 => "PiggyPivAuthV1"
  | piggyPivSigV1 => "PiggyPivSigV1"
  | piggyPivCardAuthV1 => "PiggyPivCardAuthV1"
  | papiDocSigV1 => "PapiDocSigV1"
  | pigpenWrapV1 => "PigpenWrapV1"
  | pigpenDocV1 => "PigpenDocV1"
  | piggyRecordDigestV1 => "PiggyRecordDigestV1"
  | piggyRecordSigV1 => "PiggyRecordSigV1"
  | dodderBlobDigestSha256V1 => "DodderBlobDigestSha256V1"
  | dodderObjectDigestV2 => "DodderObjectDigestV2"
  | dodderObjectSigV2 => "DodderObjectSigV2"
  | dodderRepoPublicKeyV1 => "DodderRepoPublicKeyV1"
  | dodderRepoPrivateKeyV1 => "DodderRepoPrivateKeyV1"
  | other name => "Other(\"" ++ String.join (name.toList.map debugChar) ++ "\")"

/-- Whether a purpose is one that is not enumerated. -/
def isOther : PurposeId → Bool
  | other _ => true
  | _ => false

end PurposeId

/-! ## The purpose slot -/

/-- How the purpose slot of a markl id can be malformed. -/
inductive PurposeError where
  | invalidBarePurpose (purpose : List Char) (ch : Option Char)
  | unterminatedQuoted (purpose : List Char)
  deriving DecidableEq

/-- A character of the bare charset: an ASCII letter or digit, `_`, `-` or a slash. -/
def isBareChar (c : Char) : Bool := c.isAlphanum || c == '_' || c == '/' || c == '-'

/-- A purpose that needs no quotes. -/
def purposeIsBareExpressible (purpose : List Char) : Bool :=
  !purpose.isEmpty && purpose.all isBareChar

/-- Splits a text at the first character for which a test holds; the character itself is
dropped. -/
def splitOnceAt (p : Char → Bool) : List Char → Option (List Char × List Char)
  | [] => none
  | c :: cs =>
    if p c then some ([], cs) else (splitOnceAt p cs).map fun (before, after) => (c :: before, after)

/-- The scan for the closing quote: the text up to and with it and the text behind it. A
backslash takes the next character with it. -/
def scanQuoted (quote : Char) : List Char → Option (List Char × List Char)
  | [] => none
  | c :: cs =>
    if c = '\\' then
      match cs with
      | [] => none
      | escaped :: cs => (scanQuoted quote cs).map fun (before, after) =>
          (c :: escaped :: before, after)
    else if c = quote then some ([c], cs)
    else (scanQuoted quote cs).map fun (before, after) => (c :: before, after)

/-- The purpose slot of a markl id and the body behind the join. -/
def splitPurposeSlot (value : List Char) : Option (List Char) × List Char :=
  match value with
  | [] => (none, value)
  | quote :: cs =>
    if quote ≠ '"' ∧ quote ≠ '\'' then
      match splitOnceAt (· = '@') value with
      | some (slot, body) => (some slot, body)
      | none => (none, value)
    else
      match scanQuoted quote cs with
      | some (slot, '@' :: body) => (some (quote :: slot), body)
      | _ => (some value, [])

/-- The double-quoted spelling of a purpose. -/
def quotePurpose (purpose : List Char) : List Char :=
  let escape : Char → List Char := fun c =>
    if c = '\\' then ['\\', '\\']
    else if c = '"' then ['\\', '"']
    else if c = '\n' then ['\\', 'n']
    else if c = '\t' then ['\\', 't']
    else if c = '\r' then ['\\', 'r']
    else if c = '\x07' then ['\\', 'a']
    else if c = '\x08' then ['\\', 'b']
    else if c = '\x0c' then ['\\', 'f']
    else if c = '\x0b' then ['\\', 'v']
    else [c]
  '"' :: purpose.flatMap escape ++ ['"']

/-- The canonical spelling of a purpose: bare where that is possible. -/
def spellPurpose (purpose : List Char) : List Char :=
  if purposeIsBareExpressible purpose then purpose else quotePurpose purpose

/-- The character an escape stands for; an unknown escape stands for itself. -/
def unescape (c : Char) : Char :=
  if c = 'n' then '\n'
  else if c = 't' then '\t'
  else if c = 'r' then '\r'
  else if c = 'a' then '\x07'
  else if c = 'b' then '\x08'
  else if c = 'f' then '\x0c'
  else if c = 'v' then '\x0b'
  else c

/-- The text between the quotes with its escapes undone; a lone backslash at the end stays. -/
def unescapePurposeInterior : List Char → List Char
  | [] => []
  | c :: cs =>
    if c ≠ '\\' then c :: unescapePurposeInterior cs
    else match cs with
      | [] => ['\\']
      | escaped :: cs => unescape escaped :: unescapePurposeInterior cs

/-- The purpose that a slot spells. A slot that opens with a quote closes with the same
one; any other slot is bare. -/
def unquotePurpose (slot : List Char) : Except PurposeError (List Char) :=
  match slot with
  | [] => .error (.invalidBarePurpose [] none)
  | first :: rest =>
    if first ≠ '"' ∧ first ≠ '\'' then
      if purposeIsBareExpressible slot then .ok slot
      else .error (.invalidBarePurpose slot (slot.find? fun c => !isBareChar c))
    else if rest.getLast? = some first then .ok (unescapePurposeInterior rest.dropLast)
    else .error (.unterminatedQuoted slot)

/-! ## Bare slots -/

/-- Splitting a text at a character that does not occur before it. -/
theorem splitOnceAt_append {p : Char → Bool} {before : List Char} (h : ∀ c ∈ before, p c = false)
    {c : Char} (hc : p c = true) (after : List Char) :
    splitOnceAt p (before ++ c :: after) = some (before, after) := by
  induction before with
  | nil => simp [splitOnceAt, hc]
  | cons b before ih =>
    have hb := h b (by simp)
    rw [List.cons_append, splitOnceAt, if_neg (by simp [hb]), ih fun c hc => h c (by simp [hc])]
    rfl

theorem splitOnceAt_none {p : Char → Bool} {text : List Char} (h : ∀ c ∈ text, p c = false) :
    splitOnceAt p text = none := by
  induction text with
  | nil => rfl
  | cons b text ih =>
    have hb := h b (by simp)
    rw [splitOnceAt, if_neg (by simp [hb]), ih fun c hc => h c (by simp [hc])]
    rfl

/-- What was split is joined again by the character. -/
theorem splitOnceAt_eq_some {p : Char → Bool} {text before after : List Char}
    (h : splitOnceAt p text = some (before, after)) :
    ∃ c, p c = true ∧ text = before ++ c :: after := by
  induction text generalizing before with
  | nil => cases h
  | cons b text ih =>
    rw [splitOnceAt] at h
    by_cases hb : p b = true
    · rw [if_pos hb] at h
      cases h
      exact ⟨b, hb, rfl⟩
    · rw [if_neg hb, Option.map_eq_some_iff] at h
      obtain ⟨⟨before', after'⟩, hsplit, heq⟩ := h
      cases heq
      obtain ⟨c, hc, rfl⟩ := ih hsplit
      exact ⟨c, hc, rfl⟩

/-- A bare purpose starts with no quote and has no join in it. -/
private theorem isBareChar_spec {c : Char} (h : isBareChar c = true) :
    c ≠ '"' ∧ c ≠ '\'' ∧ c ≠ '@' := by
  refine ⟨?_, ?_, ?_⟩
  all_goals
    rintro rfl
    revert h
    decide

/-- A bare slot is split off its body and read back as it stands. -/
theorem splitPurposeSlot_bare {purpose : List Char} (h : purposeIsBareExpressible purpose = true)
    (body : List Char) :
    splitPurposeSlot (purpose ++ '@' :: body) = (some purpose, body) ∧
      unquotePurpose purpose = .ok purpose := by
  obtain ⟨hne, hall⟩ : purpose.isEmpty = false ∧ ∀ c ∈ purpose, isBareChar c = true := by
    simpa [purposeIsBareExpressible] using h
  cases purpose with
  | nil => cases hne
  | cons c cs =>
    obtain ⟨hd, hs, -⟩ := isBareChar_spec (hall c (by simp))
    have hat : ∀ c' ∈ c :: cs, decide (c' = '@') = false := by
      intro c' hc'
      exact decide_eq_false (isBareChar_spec (hall c' hc')).2.2
    have hsplit := splitOnceAt_append hat (decide_eq_true (rfl : '@' = '@')) body
    rw [List.cons_append] at hsplit
    refine ⟨?_, ?_⟩
    · rw [List.cons_append, splitPurposeSlot, if_pos ⟨hd, hs⟩, hsplit]
    · rw [unquotePurpose, if_pos ⟨hd, hs⟩, if_pos h]

/-- A text without quote and join is all body. -/
theorem splitPurposeSlot_none {text : List Char} (hq : text.head? ≠ some '"')
    (hs : text.head? ≠ some '\'') (hat : '@' ∉ text) : splitPurposeSlot text = (none, text) := by
  cases text with
  | nil => rfl
  | cons c cs =>
    have hc : c ≠ '"' ∧ c ≠ '\'' := by simpa using And.intro hq hs
    rw [splitPurposeSlot, if_pos hc, splitOnceAt_none]
    intro c' hc'
    refine decide_eq_false ?_
    rintro rfl
    exact hat hc'

/-! ## Quoted slots -/

/-- The characters that are written behind a backslash. -/
def escapeLetters : List Char := ['\\', '"', 'n', 't', 'r', 'a', 'b', 'f', 'v']

/-- A spelling of one character between quotes: the character itself, or a backslash and the
letter that is read back as it. -/
def EscapesTo (c : Char) (text : List Char) : Prop :=
  (text = [c] ∧ c ∉ escapeLetters.map unescape) ∨
    ∃ letter ∈ escapeLetters, text = ['\\', letter] ∧ unescape letter = c

/-- A character that stands for itself is no backslash and no quote. -/
theorem plain_of_notMem {c : Char} (h : c ∉ escapeLetters.map unescape) : c ≠ '\\' ∧ c ≠ '"' := by
  refine ⟨?_, ?_⟩
  all_goals
    rintro rfl
    exact h (by decide)

/-- The purpose in quotes is its characters escaped one by one. -/
theorem quotePurpose_eq (purpose : List Char) :
    ∃ escape : Char → List Char, (∀ c, EscapesTo c (escape c)) ∧
      quotePurpose purpose = '"' :: (purpose.flatMap escape ++ ['"']) := by
  refine ⟨_, ?_, rfl⟩
  intro c
  split_ifs with h₁ h₂ h₃ h₄ h₅ h₆ h₇ h₈ h₉
  · exact Or.inr ⟨'\\', by decide, rfl, h₁.symm⟩
  · exact Or.inr ⟨'"', by decide, rfl, h₂.symm⟩
  · exact Or.inr ⟨'n', by decide, rfl, h₃.symm⟩
  · exact Or.inr ⟨'t', by decide, rfl, h₄.symm⟩
  · exact Or.inr ⟨'r', by decide, rfl, h₅.symm⟩
  · exact Or.inr ⟨'a', by decide, rfl, h₆.symm⟩
  · exact Or.inr ⟨'b', by decide, rfl, h₇.symm⟩
  · exact Or.inr ⟨'f', by decide, rfl, h₈.symm⟩
  · exact Or.inr ⟨'v', by decide, rfl, h₉.symm⟩
  · refine Or.inl ⟨rfl, ?_⟩
    simp [escapeLetters, unescape, h₁, h₂, h₃, h₄, h₅, h₆, h₇, h₈, h₉]

@[simp] theorem unescapePurposeInterior_escape (letter : Char) (cs : List Char) :
    unescapePurposeInterior ('\\' :: letter :: cs) =
      unescape letter :: unescapePurposeInterior cs := by
  simp [unescapePurposeInterior]

theorem unescapePurposeInterior_cons {c : Char} (h : c ≠ '\\') (cs : List Char) :
    unescapePurposeInterior (c :: cs) = c :: unescapePurposeInterior cs := by
  cases cs <;> simp [unescapePurposeInterior, h]

theorem unescapePurposeInterior_eq_nil {s : List Char} :
    unescapePurposeInterior s = [] ↔ s = [] := by
  constructor
  · intro h
    fun_cases unescapePurposeInterior s with
    | case1 => rfl
    | case2 c cs hc => simp [unescapePurposeInterior_cons hc] at h
    | case3 c hc => simp [unescapePurposeInterior, hc] at h
    | case4 c hc escaped cs =>
      obtain rfl : c = '\\' := by simpa using hc
      simp at h
  · rintro rfl
    rfl

@[simp] theorem scanQuoted_escape (quote letter : Char) (cs : List Char) :
    scanQuoted quote ('\\' :: letter :: cs) =
      (scanQuoted quote cs).map fun x => ('\\' :: letter :: x.1, x.2) := by
  simp [scanQuoted]

theorem scanQuoted_cons {quote c : Char} (h : c ≠ '\\') (cs : List Char) :
    scanQuoted quote (c :: cs) =
      if c = quote then some ([c], cs) else (scanQuoted quote cs).map fun x => (c :: x.1, x.2) := by
  cases cs <;> simp [scanQuoted, h]

/-- Undoing the escapes gives the purpose back. -/
theorem unescapePurposeInterior_flatMap {escape : Char → List Char}
    (h : ∀ c, EscapesTo c (escape c)) (purpose : List Char) :
    unescapePurposeInterior (purpose.flatMap escape) = purpose := by
  induction purpose with
  | nil => rfl
  | cons c cs ih =>
    rcases h c with ⟨hc, hplain⟩ | ⟨letter, -, hc, hletter⟩
    · have hback := (plain_of_notMem hplain).1
      rw [List.flatMap_cons, hc, List.singleton_append, unescapePurposeInterior_cons hback, ih]
    · rw [List.flatMap_cons, hc, List.cons_append, List.singleton_append,
        unescapePurposeInterior_escape, hletter, ih]

/-- The scan for the closing quote passes over the escaped purpose. -/
theorem scanQuoted_flatMap {escape : Char → List Char} (h : ∀ c, EscapesTo c (escape c))
    (purpose rest : List Char) :
    scanQuoted '"' (purpose.flatMap escape ++ '"' :: rest) =
      some (purpose.flatMap escape ++ ['"'], rest) := by
  induction purpose with
  | nil => exact scanQuoted_cons (by decide) rest
  | cons c cs ih =>
    rcases h c with ⟨hc, hplain⟩ | ⟨letter, -, hc, -⟩
    · obtain ⟨hback, hquote⟩ := plain_of_notMem hplain
      rw [List.flatMap_cons, hc, List.append_assoc, List.singleton_append,
        scanQuoted_cons hback, if_neg hquote, ih]
      rfl
    · rw [List.flatMap_cons, hc, List.append_assoc, List.cons_append, List.singleton_append,
        scanQuoted_escape, ih]
      rfl

/-- A quote that was found is found in a longer text too. -/
theorem scanQuoted_append {quote : Char} {text before after : List Char}
    (h : scanQuoted quote text = some (before, after)) (tail : List Char) :
    scanQuoted quote (text ++ tail) = some (before, after ++ tail) := by
  fun_induction scanQuoted quote text generalizing before with
  | case1 => cases h
  | case2 => cases h
  | case3 escaped cs ih =>
    obtain ⟨⟨before', after'⟩, hscan, heq⟩ := Option.map_eq_some_iff.mp h
    cases heq
    rw [List.cons_append, List.cons_append, scanQuoted_escape, ih hscan]
    rfl
  | case4 cs hq =>
    cases h
    rw [List.cons_append, scanQuoted_cons hq, if_pos rfl]
  | case5 c cs hesc hq ih =>
    obtain ⟨⟨before', after'⟩, hscan, heq⟩ := Option.map_eq_some_iff.mp h
    cases heq
    rw [List.cons_append, scanQuoted_cons hesc, if_neg hq, ih hscan]
    rfl

/-- No quote is found in the escaped purpose or in a part of it. -/
theorem scanQuoted_start {escape : Char → List Char} (h : ∀ c, EscapesTo c (escape c))
    {purpose text : List Char} (hp : text <+: purpose.flatMap escape) :
    scanQuoted '"' text = none := by
  have hall : scanQuoted '"' (purpose.flatMap escape) = none := by
    clear hp
    induction purpose with
    | nil => rfl
    | cons c cs ih =>
      rcases h c with ⟨hc, hplain⟩ | ⟨letter, -, hc, -⟩
      · obtain ⟨hback, hquote⟩ := plain_of_notMem hplain
        rw [List.flatMap_cons, hc, List.singleton_append, scanQuoted_cons hback, if_neg hquote, ih]
        rfl
      · rw [List.flatMap_cons, hc, List.cons_append, List.singleton_append, scanQuoted_escape, ih]
        rfl
  obtain ⟨tail, htail⟩ := hp
  rcases hscan : scanQuoted '"' text with _ | ⟨before, after⟩
  · rfl
  · rw [← htail, scanQuoted_append hscan] at hall
    cases hall

/-- A quoted slot is split off its body and read back. -/
theorem splitPurposeSlot_quoted (purpose body : List Char) :
    splitPurposeSlot (quotePurpose purpose ++ '@' :: body) = (some (quotePurpose purpose), body) ∧
      unquotePurpose (quotePurpose purpose) = .ok purpose := by
  obtain ⟨escape, hescape, hquote⟩ := quotePurpose_eq purpose
  rw [hquote]
  refine ⟨?_, ?_⟩
  · rw [List.cons_append, List.append_assoc, List.singleton_append, splitPurposeSlot,
      if_neg (by simp), scanQuoted_flatMap hescape]
    rfl
  · rw [unquotePurpose, if_neg (by simp), if_pos List.getLast?_concat, List.dropLast_concat,
      unescapePurposeInterior_flatMap hescape]

/-- The canonical spelling of a purpose is split off its body and read back. -/
theorem splitPurposeSlot_spell (purpose body : List Char) :
    splitPurposeSlot (spellPurpose purpose ++ '@' :: body) = (some (spellPurpose purpose), body) ∧
      unquotePurpose (spellPurpose purpose) = .ok purpose := by
  rw [spellPurpose]
  split
  · next hbare => exact splitPurposeSlot_bare hbare body
  · exact splitPurposeSlot_quoted purpose body

end Piggy.Markl
