import Piggy.Core.Lists
import Piggy.Core.Twins
import Piggy.Provision.Frame

/-!
# What the notifications tell

Two runs whose answers differ in the contents of PINs, PUKs and management keys only. They tell
the frontend the same, except for a new management key that is no hexadecimal text: the error of
the rotation names the first character that is not a digit.
-/

namespace Piggy.Provision

open Piggy.Core Piggy.Box Piggy.Card Piggy.Markl

/-! ## Notifications -/

/-- An operation with its answer. -/
abbrev Call := Σ op : ProvOp, ProvAns op

/-- What a frontend is told. -/
inductive Notice where
  | progress (event : ProgressEvent)
  | completed (event : CompletedEvent)
  deriving DecidableEq

/-- The notice of an operation. -/
def notice : ProvOp → Option Notice
  | .progress event => some (.progress event)
  | .completed event => some (.completed event)
  | _ => none

/-- The notifications of a run, the oldest first. -/
def notices (calls : Calls) : List Notice := calls.reverse.filterMap fun c => notice c.1

/-! ## What two runs have in common -/

/-- The outcome of the checks of a text that is to be a management key. -/
structure KeyCheck where
  accepted : Bool
  hexadecimal : Bool
  length : Nat
  deriving DecidableEq

/-- What is known of a key that was typed. -/
def keyCheck (key : String) (parsed : Result Bytes) : KeyCheck :=
  ⟨parsed.isOk, (hexDecode (trimStr key)).isOk, (strBytes (trimStr key)).length⟩

/-- A choice without the key. -/
inductive ChoiceCheck where
  | default
  | hex (check : KeyCheck)
  | random
  deriving DecidableEq

/-- What is known of a choice. -/
def choiceCheck : MgmtKeyChoice → ChoiceCheck
  | .default => .default
  | .hex key => .hex (keyCheck key (parseMgmtKey key fun e => e))
  | .random => .random

/-- An answer without the contents of secrets. -/
inductive Known where
  | done (ans : Except PivError Unit)
  | bytes (ans : Except PivError Bytes)
  | policy (ans : Option KeyPolicy)
  | version (ans : Option Bytes)
  | object (ans : Except PivError (Bytes × StatusWord))
  | confirmed (ans : Except FrontendError Bool)
  | secret (ans : Except FrontendError (Option KeyCheck))
  | choice (ans : Except FrontendError ChoiceCheck)
  | drawn (ans : Except String (Option Bytes))
  | stored (ans : Except String Unit)
  | exited (ans : Except String (Option String))
  | took (millis : Nat)
  | cards (ans : Except String (List CardMeta))
  | recipients (ans : Except String (List Bytes))
  | recovered (ans : Except String KeyCheck)
  | told
  deriving DecidableEq

/-- What is known of a card's answer. -/
def knownOfCard : (op : CardOp) → CardAns op → Known
  | .authenticateAdmin _, ans => .done ans
  | .verifyPin _, ans => .done ans
  | .writeChuid _, ans => .done ans
  | .generateKey _ _ _, ans => .bytes ans
  | .attestedPolicy _, ans => .policy ans
  | .signPrehash _ _ _, ans => .bytes ans
  | .putCert _ _, ans => .done ans
  | .changePin _ _, ans => .done ans
  | .changePuk _ _, ans => .done ans
  | .setManagementKey3des _, ans => .done ans
  | .readYkpivVersion, ans => .version ans
  | .getData _, ans => .object ans
  | .beginPinSession, ans => .done ans

/-- What is known of the store's answer. -/
def knownOfEscrow : (op : EscrowOp) → EscrowAns op → Known
  | .createDirAll, ans => .stored ans
  | .createFile, ans => .stored ans
  | .spawn, ans => .stored ans
  | .write _, ans => .stored ans
  | .flush, ans => .stored ans
  | .wait, ans => .exited ans
  | .removeFile, ans => .stored ans
  | .commit, _ => .told

/-- Of a PIN or a PUK nothing is known, and nothing of the bytes drawn for a management key. -/
def known : Call → Known
  | ⟨.onCard _ op, ans⟩ => knownOfCard op ans
  | ⟨.confirm _, ans⟩ => .confirmed ans
  | ⟨.requestSecret request, ans⟩ => .secret (ans.map fun text =>
      if request.kind = .managementKey then some (keyCheck text (parseCurrentMgmtKey text)) else none)
  | ⟨.requestMgmtKey _, ans⟩ => .choice (ans.map choiceCheck)
  | ⟨.progress _, _⟩ => .told
  | ⟨.completed _, _⟩ => .told
  | ⟨.randBytes n, ans⟩ => .drawn (ans.map fun bytes => if n = 24 then none else some bytes)
  | ⟨.escrow op, ans⟩ => knownOfEscrow op ans
  | ⟨.elapsed, millis⟩ => .took millis
  | ⟨.enumerateTokens _, ans⟩ => .cards ans
  | ⟨.prepare _, ans⟩ => .recipients ans
  | ⟨.recover _, ans⟩ => .recovered (ans.map fun text => keyCheck text (parseCurrentMgmtKey text))

/-- The secrets of a kind in two runs. -/
def secretTexts (kind : SecretKind) : Call × Call → Option (String × String)
  | (⟨.requestSecret request, .ok text⟩, ⟨.requestSecret _, .ok text'⟩) =>
    if request.kind = kind then some (text, text') else none
  | _ => none

/-- The new management keys that two runs were given as digits. -/
def hexKeys : Call × Call → Option (String × String)
  | (⟨.requestMgmtKey _, .ok (.hex key)⟩, ⟨.requestMgmtKey _, .ok (.hex key')⟩) => some (key, key')
  | _ => none

/-- A secret and its repetition match in both runs or in neither. -/
def SameMatches (kind again : SecretKind) (pairs : List (Call × Call)) : Prop :=
  ∀ x ∈ pairs.filterMap (secretTexts kind), ∀ y ∈ pairs.filterMap (secretTexts again),
    (x.1 = y.1 ↔ x.2 = y.2)

instance (kind again : SecretKind) (pairs : List (Call × Call)) :
    Decidable (SameMatches kind again pairs) := by
  unfold SameMatches
  infer_instance

/-- Two runs that only differ in the contents of secrets. -/
structure SameOutcomes (pairs : List (Call × Call)) : Prop where
  answers : ∀ x ∈ pairs, known x.1 = known x.2
  pins : SameMatches .newPin .confirmNewPin pairs
  puks : SameMatches .newPuk .confirmNewPuk pairs

/-- The first character of a text that is no hexadecimal digit, and where it is. Digits that are
odd in number are refused before they are looked at. -/
def firstInvalid (key : String) : Option (UInt8 × Nat) :=
  let bytes := strBytes (trimStr key)
  if bytes.length % 2 ≠ 0 then none
  else bytes.zipIdx.find? fun x => (hexValue x.1).isNone

/-! ## Texts of keys -/

/-- Digits are decoded up to the first character that is none. -/
theorem hexDecodeFrom_eq (bytes : Bytes) : ∀ index, bytes.length % 2 = 0 →
    (∃ b i, (bytes.zipIdx index).find? (fun x => (hexValue x.1).isNone) = some (b, i) ∧
      hexDecodeFrom index bytes = .error (hexDecodeFrom.invalid b i)) ∨
    (∃ out, (bytes.zipIdx index).find? (fun x => (hexValue x.1).isNone) = none ∧
      hexDecodeFrom index bytes = .ok out ∧ 2 * out.length = bytes.length) := by
  induction bytes using List.twoStepInduction with
  | nil => exact fun index _ => .inr ⟨[], rfl, rfl, rfl⟩
  | singleton b => exact fun index heven => absurd heven (by simp)
  | cons_cons hi lo rest ih =>
    intro index heven
    have hrest : rest.length % 2 = 0 := by
      simp only [List.length_cons] at heven
      omega
    rw [List.zipIdx_cons, List.zipIdx_cons, List.find?_cons, List.find?_cons, hexDecodeFrom]
    rcases hhi : hexValue hi with _ | high
    · exact .inl ⟨hi, index, rfl, rfl⟩
    rcases hlo : hexValue lo with _ | low
    · exact .inl ⟨lo, index + 1, rfl, rfl⟩
    simp only [Option.isNone_some]
    rcases ih (index + 2) hrest with ⟨b, i, hfind, herror⟩ | ⟨out, hfind, hout, hlength⟩
    · exact .inl ⟨b, i, hfind, by rw [herror]; rfl⟩
    · refine .inr ⟨(high <<< 4 ||| low) :: out, hfind, by rw [hout]; rfl, ?_⟩
      simp only [List.length_cons]
      omega

/-- The number of a printed character. -/
def latin1OfDebug : List Char → Nat
  | ['\\', '0'] => 0x00
  | ['\\', 't'] => 0x09
  | ['\\', 'n'] => 0x0A
  | ['\\', 'r'] => 0x0D
  | ['\\', c] => c.toNat
  | [c] => c.toNat
  | escape => (escape.drop 3).dropLast.foldl (fun n c =>
      16 * n + if c.isDigit then c.toNat - '0'.toNat else c.toNat - 'a'.toNat + 10) 0

theorem latin1OfDebug_debugLatin1 :
    ∀ n ∈ List.range 256, latin1OfDebug (debugLatin1 (UInt8.ofNat n)) = n := by
  decide +kernel

/-- The printed form tells the byte. -/
theorem debugLatin1_injective : Function.Injective debugLatin1 := by
  have hbyte : ∀ b : UInt8, latin1OfDebug (debugLatin1 b) = b.toNat := by
    intro b
    have hnumber := latin1OfDebug_debugLatin1 b.toNat (List.mem_range.mpr b.toNat_lt)
    rwa [UInt8.ofNat_toNat] at hnumber
  intro b b' h
  refine UInt8.toNat_inj.mp ?_
  rw [← hbyte b, ← hbyte b', h]

/-- The error tells the character and its position. -/
theorem invalid_inj {b b' : UInt8} {i i' : Nat}
    (h : hexDecodeFrom.invalid b i = hexDecodeFrom.invalid b' i') : b = b' ∧ i = i' := by
  have htext : ∀ (b : UInt8) (i : Nat), (hexDecodeFrom.invalid b i).toList =
      "Invalid character '".toList ++ debugLatin1 b ++ "' at position".toList ++ ' ' :: Nat.toDigits 10 i := by
    intro b i
    have hspace : "' at position ".toList = "' at position".toList ++ [' '] := by decide
    show ("Invalid character '" ++ String.ofList (debugLatin1 b) ++ "' at position " ++ i.repr).toList = _
    simp only [String.toList_append, String.toList_ofList, Nat.toList_repr, hspace, List.append_assoc,
      List.singleton_append]
  have hdigits : ∀ i, ' ' ∉ (Nat.toDigits 10 i).reverse := by
    intro i hmem
    have hdigit := Nat.isDigit_of_mem_toDigits (by decide) (by decide) (List.mem_reverse.mp hmem)
    exact absurd hdigit (by decide)
  have hlist := congrArg List.reverse (congrArg String.toList h)
  simp only [htext, List.reverse_append, List.reverse_cons, List.append_assoc, List.singleton_append]
    at hlist
  obtain ⟨hi, hb⟩ := append_cons_inj (hdigits i) (hdigits i') hlist
  refine ⟨debugLatin1_injective ?_, ?_⟩
  · exact List.reverse_injective (List.append_cancel_right (List.append_cancel_left hb))
  · rw [← Nat.ofDigitChars_ten_toDigits (n := i), List.reverse_injective hi,
      Nat.ofDigitChars_ten_toDigits]

/-- How a text is decoded. -/
inductive Decoded (key : String) : Prop where
  | odd (hodd : (strBytes (trimStr key)).length % 2 = 1) (hfirst : firstInvalid key = none)
      (h : hexDecode (trimStr key) = .error "Odd number of digits")
  | invalid (b : UInt8) (i : Nat) (heven : (strBytes (trimStr key)).length % 2 = 0)
      (hfirst : firstInvalid key = some (b, i))
      (h : hexDecode (trimStr key) = .error (hexDecodeFrom.invalid b i))
  | bytes (out : Bytes) (hfirst : firstInvalid key = none) (h : hexDecode (trimStr key) = .ok out)
      (hlength : 2 * out.length = (strBytes (trimStr key)).length)

theorem decoded (key : String) : Decoded key := by
  by_cases heven : (strBytes (trimStr key)).length % 2 = 0
  · have hdecode : hexDecode (trimStr key) = hexDecodeFrom 0 (strBytes (trimStr key)) := by
      rw [hexDecode]
      simp only [heven, ne_eq, not_true_eq_false, if_false]
    have hfirst : firstInvalid key =
        ((strBytes (trimStr key)).zipIdx.find? fun x => (hexValue x.1).isNone) := by
      rw [firstInvalid]
      simp only [heven, ne_eq, not_true_eq_false, if_false]
    rcases hexDecodeFrom_eq _ 0 heven with ⟨b, i, hfind, herror⟩ | ⟨out, hfind, hout, hlength⟩
    · exact .invalid b i heven (hfirst.trans hfind) (hdecode.trans herror)
    · exact .bytes out (hfirst.trans hfind) (hdecode.trans hout) hlength
  · refine .odd (by omega) ?_ ?_
    · rw [firstInvalid]
      simp only [heven, ne_eq, not_false_eq_true, if_true]
    · rw [hexDecode]
      simp only [heven, ne_eq, not_false_eq_true, if_true]

/-- Errors with the same text. -/
def SameText (e e' : ProvisionError) : Prop := e.text = e'.text

theorem related_result {α : Type} {r r' : Result α} (h : r = r') :
    Related SameText (fun a a' => a = a') r r' :=
  @related_of_eq _ _ SameText _ (fun _ => rfl) (fun _ => rfl) _ _ h

/-- Whether a new key is accepted, and why not, depends on its checks and the first character that
is no digit. -/
theorem parseMgmtKey_related {key key' : String} {parsed parsed' : Result Bytes}
    (hcheck : keyCheck key parsed = keyCheck key' parsed') (hfirst : firstInvalid key = firstInvalid key') :
    Related SameText (fun _ _ => True) (parseMgmtKey key fun e => e) (parseMgmtKey key' fun e => e) := by
  obtain ⟨-, hhex, hlength⟩ := KeyCheck.mk.inj hcheck
  unfold parseMgmtKey
  cases decoded key with
  | odd hodd hnone h =>
    rw [h] at hhex ⊢
    cases decoded key' with
    | odd _ _ h' =>
      rw [h']
      exact .error rfl
    | invalid b' i' _ hsome _ =>
      rw [hnone, hsome] at hfirst
      cases hfirst
    | bytes out' _ h' _ =>
      rw [h'] at hhex
      cases hhex
  | invalid b i heven hsome h =>
    rw [h] at hhex ⊢
    cases decoded key' with
    | odd hodd' hnone' _ =>
      rw [hsome, hnone'] at hfirst
      cases hfirst
    | invalid b' i' _ hsome' h' =>
      rw [hsome, hsome'] at hfirst
      cases hfirst
      rw [h']
      exact .error rfl
    | bytes out' _ h' _ =>
      rw [h'] at hhex
      cases hhex
  | bytes out _ h hout =>
    rw [h] at hhex ⊢
    cases decoded key' with
    | odd _ _ h' =>
      rw [h'] at hhex
      cases hhex
    | invalid _ _ _ _ h' =>
      rw [h'] at hhex
      cases hhex
    | bytes out' _ h' hout' =>
      have hsame : out.length = out'.length := by omega
      rw [h']
      dsimp only
      rw [hsame]
      split
      · exact .error rfl
      · exact .ok trivial

/-- The current key is refused without naming any of its characters. -/
theorem parseCurrentMgmtKey_related {key key' : String}
    (h : keyCheck key (parseCurrentMgmtKey key) = keyCheck key' (parseCurrentMgmtKey key')) :
    Related SameText (fun _ _ => True) (parseCurrentMgmtKey key) (parseCurrentMgmtKey key') := by
  have herror : ∀ {key : String} {e : ProvisionError}, parseCurrentMgmtKey key = .error e →
      e = .badMgmtKey (if (hexDecode (trimStr key)).isOk then
        s!"expected 24 bytes, got {(strBytes (trimStr key)).length / 2}"
        else "expected 48 hex digits, or the word default") := by
    intro key e h
    unfold parseCurrentMgmtKey parseMgmtKey at h
    split at h
    · cases h
    rcases decoded key with ⟨-, -, hdecode⟩ | ⟨b, i, -, -, hdecode⟩ | ⟨out, -, hdecode, hlength⟩
    · rw [hdecode] at h ⊢
      cases h
      rfl
    · rw [hdecode] at h ⊢
      cases h
      rfl
    · rw [hdecode] at h ⊢
      have hhalf : (strBytes (trimStr key)).length / 2 = out.length := by omega
      rw [hhalf]
      dsimp only at h
      split at h
      · cases h
        rfl
      · cases h
  obtain ⟨haccepted, hhex, hlength⟩ := KeyCheck.mk.inj h
  rcases hparsed : parseCurrentMgmtKey key with e | bytes
  · rcases hparsed' : parseCurrentMgmtKey key' with e' | bytes'
    · refine .error ?_
      rw [herror hparsed, herror hparsed', hhex, hlength]
      rfl
    · rw [hparsed, hparsed'] at haccepted
      cases haccepted
  · rcases hparsed' : parseCurrentMgmtKey key' with e' | bytes'
    · rw [hparsed, hparsed'] at haccepted
      cases haccepted
    · exact .ok trivial

/-! ## Side by side -/

/-- Operations that notify alike. -/
def SameNotice (op op' : ProvOp) : Prop := notice op = notice op'

/-- Two programs that notify alike while their answers are pairs of two runs. -/
abbrev Alongside {α α' : Type} (pairs : List (Call × Call)) (post : α → α' → Prop) (p : ProvProg α)
    (p' : ProvProg α') : Prop :=
  p.Twin SameNotice (fun c c' => (c, c') ∈ pairs) post p'

/-- The operations whose answer is known as a whole. -/
def Plain : ProvOp → Prop
  | .requestSecret _ | .requestMgmtKey _ | .recover _ => False
  | .randBytes n => n ≠ 24
  | _ => True

theorem Plain.eq_of_known {op : ProvOp} {ans ans' : ProvAns op} (hop : Plain op)
    (h : known ⟨op, ans⟩ = known ⟨op, ans'⟩) : ans = ans' := by
  cases op with
  | onCard card op => cases op <;> exact Known.noConfusion h id
  | escrow op => cases op <;> first | rfl | exact Known.noConfusion h id
  | requestSecret request => exact hop.elim
  | requestMgmtKey request => exact hop.elim
  | recover passName => exact hop.elim
  | randBytes n =>
    have hne : n ≠ 24 := hop
    simp only [known, if_neg hne, Known.drawn.injEq] at h
    rcases ans with e | bytes <;> rcases ans' with e' | bytes' <;> cases h <;> rfl
  | progress event => rfl
  | completed event => rfl
  | _ => exact Known.noConfusion h id

theorem progress_plain (event : ProgressEvent) :
    (Prog.op (ProvOp.progress event) : ProvProg Unit).Only Plain := ⟨trivial, fun _ => trivial⟩

theorem KeyOps.plain {card : CardMeta} {op : ProvOp} (h : KeyOps card op) : Plain op := by
  cases op with
  | requestSecret request => exact h.elim fun _ => False.elim
  | requestMgmtKey request => exact h.elim fun _ => False.elim
  | recover passName => exact h.elim fun _ => False.elim
  | randBytes n => exact h.elim fun _ => False.elim
  | _ => trivial

theorem selectProvisionedCard_plain (selector : CardSelector) :
    (selectProvisionedCard selector).Only Plain := by
  have hcards : (Prog.op (ProvOp.enumerateTokens false) :
      ProvProg (Except String (List CardMeta))).Only Plain := Prog.only_op trivial
  refine (hcards.orFail _).andThen fun cards => ?_
  split
  · trivial
  · split <;> trivial

variable {pairs : List (Call × Call)}

theorem alongside_reportResult {α : Type} {summary : α → List (String × String)} {r r' : Result α}
    (h : Related SameText (fun a a' => summary a = summary a') r r') :
    Alongside pairs (fun _ _ => True) (reportResult summary r) (reportResult summary r') := by
  rcases h with ⟨herror⟩ | ⟨hok⟩
  · have htext : ∀ {e e' : ProvisionError}, SameText e e' →
        (⟨.error, none, some e.text⟩ : CompletedEvent) = ⟨.error, none, some e'.text⟩ := fun h => by rw [h]
    exact ⟨congrArg (fun event => some (Notice.completed event)) (htext herror), fun _ _ _ => trivial⟩
  · refine ⟨congrArg (fun summary => some (Notice.completed ⟨.ok, some summary, none⟩)) hok, ?_⟩
    exact fun _ _ _ => trivial

variable (hpairs : SameOutcomes pairs)

include hpairs

theorem alongside_plain {α : Type} {p : ProvProg α} (hp : p.Only Plain) :
    Alongside pairs (fun a a' => a = a') p p :=
  hp.twin (fun _ _ => rfl) fun _ _ _ hop hmem => hop.eq_of_known (hpairs.answers _ hmem)

theorem alongside_fallible {α : Type} {p : ProvProg (Result α)} (hp : p.Only Plain) :
    Alongside pairs (Related SameText fun a a' => a = a') p p :=
  (alongside_plain hpairs hp).mono fun _ _ h => related_result h

/-- Commands of a card that carry secrets. -/
theorem alongside_command {card : CardMeta} {op op' : CardOp} (g : CardAns op → Except PivError Unit)
    (g' : CardAns op' → Except PivError Unit) (hg : ∀ ans, knownOfCard op ans = .done (g ans))
    (hg' : ∀ ans, knownOfCard op' ans = .done (g' ans)) :
    Alongside pairs (fun ans ans' => g ans = g' ans') (Prog.op (ProvOp.onCard card op))
      (Prog.op (ProvOp.onCard card op')) := by
  refine ⟨rfl, fun ans ans' hmem => ?_⟩
  have hknown : knownOfCard op ans = knownOfCard op' ans' := hpairs.answers _ hmem
  rw [hg, hg'] at hknown
  exact Known.done.inj hknown

theorem alongside_commandOrFail {card : CardMeta} {op op' : CardOp}
    (g : CardAns op → Except PivError Unit) (g' : CardAns op' → Except PivError Unit)
    (hg : ∀ ans, knownOfCard op ans = .done (g ans)) (hg' : ∀ ans, knownOfCard op' ans = .done (g' ans)) :
    Alongside pairs (Related SameText fun a a' => a = a')
      (Prog.op (ProvOp.onCard card op) >>= fun ans => Prog.ret ((g ans).mapError ProvisionError.card))
      (Prog.op (ProvOp.onCard card op') >>= fun ans => Prog.ret ((g' ans).mapError ProvisionError.card)) := by
  refine (alongside_command hpairs g g' hg hg').bind fun ans ans' h => ?_
  exact related_result (congrArg _ h)

/-- A secret that is asked for. -/
theorem alongside_secret (request : SecretRequest) :
    Alongside pairs (Related (fun e e' => e = e') fun text text' =>
      (text, text') ∈ pairs.filterMap (secretTexts request.kind) ∧
      (request.kind = .managementKey →
        keyCheck text (parseCurrentMgmtKey text) = keyCheck text' (parseCurrentMgmtKey text')))
      (Prog.op (ProvOp.requestSecret request)) (Prog.op (ProvOp.requestSecret request)) := by
  refine ⟨rfl, fun ans ans' hmem => ?_⟩
  have hknown := Known.secret.inj (hpairs.answers _ hmem)
  rcases ans with e | text <;> rcases ans' with e' | text'
  · exact .error (Except.error.inj hknown)
  · exact nomatch hknown
  · exact nomatch hknown
  · have hcheck := Except.ok.inj hknown
    refine .ok ⟨List.mem_filterMap.mpr ⟨_, hmem, if_pos rfl⟩, fun hkind => ?_⟩
    dsimp only at hcheck
    rw [if_pos hkind, if_pos hkind] at hcheck
    exact Option.some.inj hcheck

/-- An error of the frontend. -/
theorem alongside_secretOrFail (request : SecretRequest) :
    Alongside pairs (Related SameText fun text text' =>
      (text, text') ∈ pairs.filterMap (secretTexts request.kind) ∧
      (request.kind = .managementKey →
        keyCheck text (parseCurrentMgmtKey text) = keyCheck text' (parseCurrentMgmtKey text')))
      ((Prog.op (ProvOp.requestSecret request)).orFail .frontend)
      ((Prog.op (ProvOp.requestSecret request)).orFail .frontend) := by
  refine (alongside_secret hpairs request).orFail ?_
  rintro e e' rfl
  rfl

/-- A new secret is repeated in both runs or in neither. -/
theorem alongside_collectNewSecret {card : CardId} {enter again : SecretKind} {prompt : String}
    {mismatch : ProvisionError} (hmatch : SameMatches enter again pairs) :
    Alongside pairs (Related SameText fun _ _ => True)
      (collectNewSecret card enter again prompt mismatch)
      (collectNewSecret card enter again prompt mismatch) := by
  refine (alongside_secretOrFail hpairs _).andThen ?_
  rintro first first' ⟨hfirst, -⟩
  refine (alongside_secretOrFail hpairs _).andThen ?_
  rintro second second' ⟨hsecond, -⟩
  have hsame : first = second ↔ first' = second' := hmatch _ hfirst _ hsecond
  by_cases heq : first = second
  · rw [if_neg (not_not.mpr heq), if_neg (not_not.mpr (hsame.mp heq))]
    exact .ok trivial
  · rw [if_pos heq, if_pos fun heq' => heq (hsame.mpr heq')]
    exact .error rfl

/-- Writing an entry tells nothing of its plaintext. -/
theorem alongside_sealEntry (keyHex keyHex' : String) :
    Alongside pairs (Related (fun e e' => e = e') fun a a' => a = a') (sealEntry keyHex)
      (sealEntry keyHex') := by
  have hplain : ∀ {α : Type} {p : ProvProg (Except String α)}, p.Only Plain →
      Alongside pairs (Related (fun e e' => e = e') fun a a' => a = a') p p := fun hp =>
    (alongside_plain hpairs hp).mono fun _ _ h => related_of_eq (fun _ => rfl) (fun _ => rfl) h
  have hwrite : ∀ plaintext plaintext', Alongside pairs (Related (fun e e' => e = e') fun a a' => a = a')
      (Prog.op (ProvOp.escrow (.write plaintext))) (Prog.op (ProvOp.escrow (.write plaintext'))) :=
    fun plaintext plaintext' => ⟨rfl, fun ans ans' hmem => related_of_eq (fun _ => rfl) (fun _ => rfl)
      (Known.stored.inj (hpairs.answers _ hmem))⟩
  refine (hplain (Prog.only_op trivial)).andThen fun _ _ _ => ?_
  refine (hplain (Prog.only_op trivial)).andThen fun _ _ _ => ?_
  refine (hplain (Prog.only_op trivial)).andThen fun _ _ _ => ?_
  refine (hwrite _ _).andThen fun _ _ _ => ?_
  refine (hplain (Prog.only_op trivial)).andThen fun _ _ _ => ?_
  refine (hplain (Prog.only_op trivial)).andThen ?_
  rintro failure failure' rfl
  refine hplain ?_
  split
  · trivial
  · exact ⟨trivial, fun _ => trivial⟩

theorem alongside_sealThenRotate (card : CardMeta) (escrow : Escrow) (key key' : Bytes) :
    Alongside pairs (Related SameText fun a a' => a = a') (sealThenRotate card escrow key)
      (sealThenRotate card escrow key') := by
  refine (alongside_plain hpairs (progress_plain _)).bind fun _ _ _ => ?_
  have hseal : Alongside pairs (Related SameText fun a a' => a = a')
      ((sealEntry (hexEncodeUpper key)).orFail .sealing)
      ((sealEntry (hexEncodeUpper key')).orFail .sealing) := by
    refine (alongside_sealEntry hpairs _ _).orFail ?_
    rintro e e' rfl
    rfl
  refine hseal.andThen fun _ _ _ => ?_
  refine (alongside_command hpairs id id (fun _ => rfl) fun _ => rfl).bind ?_
  rintro set set' hset
  obtain rfl : set = set' := hset
  rcases set with e | ⟨⟩
  · exact alongside_fallible hpairs ⟨trivial, fun _ => trivial⟩
  · exact alongside_fallible hpairs ⟨trivial, fun _ => trivial⟩

/-- Nothing is known of the bytes of a key. -/
theorem alongside_drawKey : Alongside pairs (Related SameText fun _ _ => True)
    ((Prog.op (ProvOp.randBytes 24)).orFail fun e => ProvisionError.badMgmtKey s!"rng: {e}")
    ((Prog.op (ProvOp.randBytes 24)).orFail fun e => ProvisionError.badMgmtKey s!"rng: {e}") := by
  refine ⟨rfl, fun ans ans' hmem => ?_⟩
  have hknown := Known.drawn.inj (hpairs.answers _ hmem)
  rcases ans with e | key <;> rcases ans' with e' | key'
  · obtain rfl := Except.error.inj hknown
    exact .error rfl
  · exact nomatch hknown
  · exact nomatch hknown
  · exact .ok trivial

/-- Choices that differ in the key only, which two runs were given as digits. -/
inductive ChoiceAlike (pairs : List (Call × Call)) : MgmtKeyChoice → MgmtKeyChoice → Prop where
  | default : ChoiceAlike pairs .default .default
  | hex {key key' : String}
      (hcheck : keyCheck key (parseMgmtKey key fun e => e) = keyCheck key' (parseMgmtKey key' fun e => e))
      (hmem : (key, key') ∈ pairs.filterMap hexKeys) : ChoiceAlike pairs (.hex key) (.hex key')
  | random : ChoiceAlike pairs .random .random

theorem alongside_chooseKey (request : MgmtKeyRequest) :
    Alongside pairs (Related SameText (ChoiceAlike pairs))
      ((Prog.op (ProvOp.requestMgmtKey request)).orFail .frontend)
      ((Prog.op (ProvOp.requestMgmtKey request)).orFail .frontend) := by
  refine ⟨rfl, fun ans ans' hmem => ?_⟩
  have hknown := Known.choice.inj (hpairs.answers _ hmem)
  rcases ans with e | choice <;> rcases ans' with e' | choice'
  · obtain rfl := Except.error.inj hknown
    exact .error rfl
  · exact nomatch hknown
  · exact nomatch hknown
  have hchoice : choiceCheck choice = choiceCheck choice' := Except.ok.inj hknown
  refine .ok ?_
  rcases choice with _ | key | _ <;> rcases choice' with _ | key' | _
  · exact .default
  · exact nomatch hchoice
  · exact nomatch hchoice
  · exact nomatch hchoice
  · exact .hex (ChoiceCheck.hex.inj hchoice) (List.mem_filterMap.mpr ⟨_, hmem, rfl⟩)
  · exact nomatch hchoice
  · exact nomatch hchoice
  · exact nomatch hchoice
  · exact .random

/-- Two runs rotate the key alike, unless a key of digits is refused for another character. -/
theorem alongside_rotateMgmtKey (card : CardMeta) (id : CardId) (escrow : Option Escrow)
    (hkeys : ∀ x ∈ pairs.filterMap hexKeys, firstInvalid x.1 = firstInvalid x.2) :
    Alongside pairs (Related SameText fun a a' => a.2 = a'.2) (rotateMgmtKey card id escrow)
      (rotateMgmtKey card id escrow) := by
  have hsame : ∀ {p : ProvProg (Result (Option String × Option SealedKey))}, p.Only Plain →
      Alongside pairs (Related SameText fun a a' => a.2 = a'.2) p p := fun hp =>
    (alongside_fallible hpairs hp).mono fun _ _ h => h.mono (fun _ _ h => h) fun _ _ h => h ▸ rfl
  have hnoted : Alongside pairs (Related SameText fun a a' => a.2 = a'.2)
      (do
        let _ ← noteUnsealed escrow
        pure (.ok (none, none)) : ProvProg (Result (Option String × Option SealedKey)))
      (do
        let _ ← noteUnsealed escrow
        pure (.ok (none, none)) : ProvProg (Result (Option String × Option SealedKey))) :=
    hsame ((noteUnsealed_only (fun _ => trivial) escrow).bind fun _ => trivial)
  have hset : ∀ key key', Alongside pairs (Related SameText fun a a' => a = a')
      ((Prog.op (ProvOp.onCard card (.setManagementKey3des key))).orFail .card)
      ((Prog.op (ProvOp.onCard card (.setManagementKey3des key'))).orFail .card) :=
    fun key key' => @alongside_commandOrFail pairs hpairs card (.setManagementKey3des key)
      (.setManagementKey3des key') (fun ans => ans) (fun ans => ans) (fun _ => rfl) fun _ => rfl
  refine (alongside_chooseKey hpairs _).andThen ?_
  rintro choice choice' (_ | ⟨hcheck, hmem⟩ | _)
  · exact hnoted
  · next key key' =>
    have hparsed := parseMgmtKey_related hcheck (hkeys (key, key') hmem)
    dsimp only
    generalize parseMgmtKey key (fun e => e) = parsed, parseMgmtKey key' (fun e => e) = parsed' at hparsed
    rcases hparsed with ⟨herror⟩ | ⟨-⟩
    · exact .error herror
    · exact (hset _ _).andThen fun _ _ _ => hnoted
  dsimp only
  refine (alongside_drawKey hpairs).andThen fun key key' _ => ?_
  refine (alongside_plain hpairs (chooseEscrow_only (fun _ => trivial) id escrow)).bind ?_
  rintro chosen _ rfl
  rcases chosen with _ | escrow
  · exact (hset _ _).andThen fun _ _ _ => .ok rfl
  · refine (alongside_sealThenRotate hpairs card escrow key key').andThen ?_
    rintro sealedKey _ rfl
    exact .ok rfl

/-- Setting up a card. -/
theorem alongside_run (certs : CertBuilder) (card : CardMeta) (cfg : ProvisionConfig)
    (escrow : Option Escrow)
    (hkeys : ∀ x ∈ pairs.filterMap hexKeys, firstInvalid x.1 = firstInvalid x.2) :
    Alongside pairs (fun _ _ => True) (run certs card cfg escrow) (run certs card cfg escrow) := by
  have hpin : ∀ pin pin', Alongside pairs (Related SameText fun a a' => a = a')
      ((Prog.op (ProvOp.onCard card (.changePin defaultPin pin))).orFail .card)
      ((Prog.op (ProvOp.onCard card (.changePin defaultPin pin'))).orFail .card) :=
    fun pin pin' => @alongside_commandOrFail pairs hpairs card (.changePin defaultPin pin)
      (.changePin defaultPin pin') (fun ans => ans) (fun ans => ans) (fun _ => rfl) fun _ => rfl
  have hpuk : ∀ puk puk', Alongside pairs (Related SameText fun a a' => a = a')
      ((Prog.op (ProvOp.onCard card (.changePuk defaultPuk puk))).orFail .card)
      ((Prog.op (ProvOp.onCard card (.changePuk defaultPuk puk'))).orFail .card) :=
    fun puk puk' => @alongside_commandOrFail pairs hpairs card (.changePuk defaultPuk puk)
      (.changePuk defaultPuk puk') (fun ans => ans) (fun ans => ans) (fun _ => rfl) fun _ => rfl
  have hsecrets : Alongside pairs (Related SameText fun a a' => a.2 = a'.2)
      (changeSecrets card cfg escrow) (changeSecrets card cfg escrow) := by
    refine (alongside_plain hpairs (progress_plain _)).bind fun _ _ _ => ?_
    refine (alongside_collectNewSecret hpairs hpairs.pins).andThen fun pin pin' _ => ?_
    refine (hpin pin pin').andThen fun _ _ _ => ?_
    refine (alongside_collectNewSecret hpairs hpairs.puks).andThen fun puk puk' _ => ?_
    refine (hpuk puk puk').andThen fun _ _ _ => ?_
    refine (alongside_plain hpairs (progress_plain _)).bind fun _ _ _ => ?_
    exact alongside_rotateMgmtKey hpairs card _ escrow hkeys
  have hinner : Alongside pairs (Related SameText fun o o' =>
      o.guid = o'.guid ∧ o.sealedMgmtKey = o'.sealedMgmtKey) (runInner certs card cfg escrow)
      (runInner certs card cfg escrow) := by
    have hwrite := alongside_fallible hpairs ((writeKeys_only certs card cfg).mono fun _ => KeyOps.plain)
    refine hwrite.andThen ?_
    rintro serves _ rfl
    refine hsecrets.andThen ?_
    rintro ⟨generated, sealedKey⟩ ⟨generated', _⟩ rfl
    exact .ok ⟨rfl, rfl⟩
  refine hinner.bind fun r r' hr => ?_
  refine Prog.Twin.bind (alongside_reportResult (hr.mono (fun _ _ h => h) ?_)) fun _ _ _ => trivial
  rintro o o' ⟨hguid, hsealed⟩
  rw [hguid, hsealed]

theorem alongside_provisionWithFrontend (certs : CertBuilder) (reader : KeyReader)
    (selector : CardSelector) (allowReprovision : Bool) (policies : SlotPolicies) (mode : SealMode)
    (hkeys : ∀ x ∈ pairs.filterMap hexKeys, firstInvalid x.1 = firstInvalid x.2) :
    Alongside pairs (fun _ _ => True)
      (provisionWithFrontend certs reader selector allowReprovision policies mode)
      (provisionWithFrontend certs reader selector allowReprovision policies mode) := by
  have hrest : ∀ {α β : Type} {p : ProvProg (Result α)} {f : α → ProvProg (Result β)}, p.Only Plain →
      (∀ a, Alongside pairs (fun _ _ => True) (f a) (f a)) →
      Alongside pairs (fun _ _ => True) (p.andThen f) (p.andThen f) := by
    intro α β p f hp hf
    refine (alongside_plain hpairs hp).bind ?_
    rintro r _ rfl
    rcases r with e | a
    · trivial
    · exact hf a
  rw [provisionWithFrontend]
  refine hrest ((Prog.only_op trivial).orFail _) fun cards => ?_
  split
  · trivial
  next card hselect =>
  refine (alongside_plain hpairs (p := Prog.op (ProvOp.onCard card .readYkpivVersion))
    ⟨trivial, fun _ => trivial⟩).bind ?_
  rintro version _ rfl
  refine hrest (drawGuid_only (show (16 : Nat) ≠ 24 by decide)) fun guid => ?_
  have hescrow : (prepareEscrow reader card mode (hexEncodeUpper guid.bytes)).Only Plain :=
    prepareEscrow_only (fun _ => trivial) (fun _ => trivial) (fun _ => trivial) mode _
  refine hrest hescrow fun escrow => ?_
  refine hrest ((Prog.only_op trivial).orFail _) fun _ => ?_
  exact alongside_run hpairs certs card _ escrow hkeys

/-! ## Adding a key -/

/-- The certificate of a key that needs the PIN. -/
theorem alongside_provisionSlot (certs : CertBuilder) (card : CardMeta) (slot : UInt8) (cn : String)
    (policy : KeyPolicy) (pin pin' recovery : String) :
    Alongside pairs (Related SameText fun a a' => a = a')
      (provisionSlot certs card slot cn policy pin recovery)
      (provisionSlot certs card slot cn policy pin' recovery) := by
  have hverify : Alongside pairs (fun a a' => a = a') (verifyForKey card slot policy pin)
      (verifyForKey card slot policy pin') := by
    unfold verifyForKey
    split
    · exact @alongside_command pairs hpairs card (.verifyPin pin) (.verifyPin pin') (fun ans => ans)
        (fun ans => ans) (fun _ => rfl) fun _ => rfl
    · exact rfl
  have hcert : ∀ point, Alongside pairs (fun a a' => a = a')
      (certify certs card slot cn policy pin point) (certify certs card slot cn policy pin' point) := by
    intro point
    refine hverify.bind ?_
    rintro verified _ rfl
    rcases verified with e | ⟨⟩
    · exact rfl
    have hrest := (announceTouch_only card slot policy).bind
      fun _ => writeCert_only certs card slot cn point
    exact alongside_plain hpairs (hrest.mono fun _ h => KeyOps.plain (SlotOps.keyOps h.slotOps))
  have hgenerate : (Prog.op (ProvOp.onCard card (.generateKey slot .ecP256 policy)) :
      ProvProg (Except PivError Bytes)).Only Plain := Prog.only_op trivial
  refine (alongside_fallible hpairs (hgenerate.orFail _)).andThen ?_
  rintro point _ rfl
  refine (hcert point).bind ?_
  rintro ⟨certified, refusedAfter⟩ _ rfl
  refine alongside_fallible hpairs ?_
  rcases certified with e | ⟨⟩ <;> trivial

/-- Plans that differ in the secrets only. -/
def AddKeyPlan.Alike (plan plan' : AddKeyPlan) : Prop :=
  plan' = { plan with mgmtKey := plan'.mgmtKey, pin := plan'.pin }

theorem alongside_applyAddKey (certs : CertBuilder) (card : CardMeta) {plan plan' : AddKeyPlan}
    (hplan : plan.Alike plan') :
    Alongside pairs (Related SameText fun a a' => a = a') (applyAddKey certs card plan)
      (applyAddKey certs card plan') := by
  obtain ⟨guid, slot, policy, key, pin, binding⟩ := plan
  obtain ⟨_, _, _, key', pin', _⟩ := plan'
  cases hplan
  have hadmin : Alongside pairs (Related SameText fun a a' => a = a')
      ((Prog.op (ProvOp.onCard card (.authenticateAdmin key))).orFail .card)
      ((Prog.op (ProvOp.onCard card (.authenticateAdmin key'))).orFail .card) :=
    @alongside_commandOrFail pairs hpairs card (.authenticateAdmin key) (.authenticateAdmin key')
      (fun ans => ans) (fun ans => ans) (fun _ => rfl) fun _ => rfl
  have hpin : Alongside pairs (Related SameText fun a a' => a = a')
      ((Prog.op (ProvOp.onCard card (.verifyPin pin))).orFail .card)
      ((Prog.op (ProvOp.onCard card (.verifyPin pin'))).orFail .card) :=
    @alongside_commandOrFail pairs hpairs card (.verifyPin pin) (.verifyPin pin')
      (fun ans => ans) (fun ans => ans) (fun _ => rfl) fun _ => rfl
  refine hadmin.andThen fun _ _ _ => ?_
  refine hpin.andThen fun _ _ _ => ?_
  refine (alongside_plain hpairs (progress_plain _)).bind fun _ _ _ => ?_
  refine (alongside_provisionSlot hpairs certs card slot _ policy pin pin' _).andThen ?_
  rintro point _ rfl
  refine alongside_fallible hpairs ?_
  split
  · exact (checkOperatorActs_only trivial fun _ => trivial).bind fun _ => trivial
  · trivial

/-- Texts with the same checks as a current management key. -/
def SameCheck (text text' : String) : Prop :=
  keyCheck text (parseCurrentMgmtKey text) = keyCheck text' (parseCurrentMgmtKey text')

/-- A key that is read from the store. -/
theorem alongside_recoverOrFail (passName : String) (fail : String → ProvisionError) :
    Alongside pairs (Related SameText SameCheck) ((Prog.op (ProvOp.recover passName)).orFail fail)
      ((Prog.op (ProvOp.recover passName)).orFail fail) := by
  refine ⟨rfl, fun ans ans' hmem => ?_⟩
  have hknown := Known.recovered.inj (hpairs.answers _ hmem)
  rcases ans with e | text <;> rcases ans' with e' | text'
  · obtain rfl := Except.error.inj hknown
    exact .error rfl
  · exact nomatch hknown
  · exact nomatch hknown
  · exact .ok (Except.ok.inj hknown)

/-- The current management key comes from the operator or from the store. -/
theorem alongside_planAddKey (serial : Option UInt32) (cfg : AddKeyConfig) :
    Alongside pairs (Related SameText AddKeyPlan.Alike) (planAddKey serial cfg) (planAddKey serial cfg) := by
  rw [planAddKey]
  dsimp only
  split
  · exact .error rfl
  have hconfirm : ∀ request, (Prog.op (ProvOp.confirm request) :
      ProvProg (Except FrontendError Bool)).Only Plain := fun _ => Prog.only_op trivial
  refine (alongside_fallible hpairs ((hconfirm _).orFail _)).andThen ?_
  rintro proceed _ rfl
  split
  · exact .error rfl
  have hstored : ∀ {p : ProvProg (Result String)} {f : String → ProvProg (Result AddKeyPlan)},
      Alongside pairs (Related SameText SameCheck) p p → (∀ text text', SameCheck text text' →
        Alongside pairs (Related SameText AddKeyPlan.Alike) (f text) (f text')) →
      Alongside pairs (Related SameText AddKeyPlan.Alike) (p.andThen f) (p.andThen f) :=
    fun hp hf => hp.andThen hf
  refine hstored ?_ fun text text' hcheck => ?_
  · split
    · exact alongside_recoverOrFail hpairs _ _
    · exact (alongside_secretOrFail hpairs _).mono fun _ _ h =>
        h.mono (fun _ _ h => h) fun _ _ h => h.2 rfl
  have hparsed := parseCurrentMgmtKey_related hcheck
  generalize parseCurrentMgmtKey text = parsed, parseCurrentMgmtKey text' = parsed' at hparsed
  rcases hparsed with ⟨herror⟩ | ⟨-⟩
  · exact .error herror
  · exact (alongside_secretOrFail hpairs _).andThen fun _ _ _ => .ok rfl

theorem alongside_planAndApply (certs : CertBuilder) (card : CardMeta) (cfg : AddKeyConfig) :
    Alongside pairs (Related SameText fun a a' => a = a') (planAndApply certs card cfg)
      (planAndApply certs card cfg) := by
  refine (alongside_planAddKey hpairs card.serial cfg).andThen fun plan plan' hplan => ?_
  have hopen : (Prog.op (ProvOp.onCard card .beginPinSession) : ProvProg (Except PivError Unit)).Only
      Plain := Prog.only_op trivial
  refine (alongside_fallible hpairs (hopen.orFail _)).andThen fun _ _ _ => ?_
  exact alongside_applyAddKey hpairs certs card hplan

theorem alongside_addKeyWithFrontend (certs : CertBuilder) (reader : KeyReader)
    (selector : CardSelector) (args : AddKeyArgs) :
    Alongside pairs (fun _ _ => True) (addKeyWithFrontend certs reader selector args)
      (addKeyWithFrontend certs reader selector args) := by
  rw [addKeyWithFrontend]
  split
  · trivial
  next slot policy hargs =>
  refine (alongside_plain hpairs (selectProvisionedCard_plain selector)).bind ?_
  rintro selected _ rfl
  rcases selected with e | card
  · trivial
  have hversion : (Prog.op (ProvOp.onCard card .readYkpivVersion) : ProvProg (Option Bytes)).Only
      Plain := Prog.only_op trivial
  refine (alongside_plain hpairs hversion).bind ?_
  rintro version _ rfl
  refine (alongside_plain hpairs (readSlot_only fun _ => trivial)).bind ?_
  rintro read _ rfl
  rcases occupiedOf slot read with e | occupied
  · trivial
  refine (alongside_planAndApply hpairs certs card _).bind fun r r' hr => ?_
  refine Prog.Twin.bind (alongside_reportResult (hr.mono (fun _ _ h => h) ?_)) fun _ _ _ => trivial
  rintro outcome _ rfl
  rfl

omit hpairs

/-! ## A key that is refused -/

/-- The operations that ask for no new management key. -/
def Choiceless : ProvOp → Prop
  | .requestMgmtKey _ => False
  | _ => True

theorem Plain.choiceless {op : ProvOp} (h : Plain op) : Choiceless op := by
  cases op with
  | requestMgmtKey request => exact h.elim
  | _ => trivial

/-- The new keys so far were accepted. -/
def Accepted (calls : Calls) : Prop :=
  ∀ request key e, (⟨.requestMgmtKey request, .ok (.hex key)⟩ : Call) ∈ calls →
    parseMgmtKey key (fun e => e) ≠ .error e

/-- A run in which a key was refused fails with that error. -/
def Refused {α : Type} (result : Result α) (calls : Calls) : Prop :=
  ∀ request key e, (⟨.requestMgmtKey request, .ok (.hex key)⟩ : Call) ∈ calls →
    parseMgmtKey key (fun e => e) = .error e → result = .error e

theorem Accepted.refused {α : Type} {calls : Calls} (h : Accepted calls) (result : Result α) :
    Refused result calls := fun request key e hmem herror => absurd herror (h request key e hmem)

theorem Accepted.cons {calls : Calls} (h : Accepted calls) {call : Call}
    (hcall : ∀ request key e, call = ⟨.requestMgmtKey request, .ok (.hex key)⟩ →
      parseMgmtKey key (fun e => e) ≠ .error e) : Accepted (call :: calls) := by
  intro request key e hmem
  rcases List.mem_cons.mp hmem with heq | hmem
  · exact hcall request key e heq.symm
  · exact h request key e hmem

theorem guards_accepted {α : Type} {p : ProvProg α} (hp : p.Only Choiceless) {calls : Calls}
    (h : Accepted calls) :
    p.Guards (fun _ _ => True) (fun _ calls => Accepted calls) calls := by
  refine hp.guards_of_kept (fun _ _ _ _ => trivial) ?_ h
  intro op ans calls hop h
  refine h.cons fun request key e heq => ?_
  cases heq
  exact hop.elim

theorem guards_rotateMgmtKey (card : CardMeta) (id : CardId) (escrow : Option Escrow) {calls : Calls}
    (h : Accepted calls) :
    (rotateMgmtKey card id escrow).Guards (fun _ _ => True) Refused calls := by
  have hrest : ∀ {α : Type} {p : ProvProg (Result α)} {calls : Calls}, p.Only Choiceless →
      Accepted calls → p.Guards (fun _ _ => True) Refused calls :=
    fun hp h => (guards_accepted hp h).mono fun result _ h => h.refused result
  have hset : ∀ key, Choiceless (.onCard card (.setManagementKey3des key)) := fun _ => trivial
  have hnote : (noteUnsealed escrow).Only Choiceless := noteUnsealed_only (fun _ => trivial) escrow
  have hchoose : Prog.Guards (fun _ _ => True)
      (Prog.op (ProvOp.requestMgmtKey ⟨"Management key for the card", id⟩))
      (fun answer later => later = ⟨.requestMgmtKey ⟨"Management key for the card", id⟩, answer⟩ :: calls)
      calls := ⟨trivial, fun _ => rfl⟩
  refine hchoose.orFail_andThen ?_ ?_
  · rintro e _ rfl
    refine (h.cons fun request key e' heq => ?_).refused _
    cases heq
  rintro (_ | key | _) _ rfl
  · exact hrest (hnote.bind fun _ => trivial) (h.cons fun _ _ _ heq => nomatch heq)
  · dsimp only
    rcases hparse : parseMgmtKey key (fun e => e) with e | bytes
    · intro request other e' hmem hother
      rcases List.mem_cons.mp hmem with heq | hmem
      · cases heq
        rw [hparse] at hother
        cases hother
        rfl
      · exact absurd hother (h request other e' hmem)
    · refine hrest (((Prog.only_op (hset _)).orFail _).andThen fun _ => hnote.bind fun _ => trivial) ?_
      refine h.cons fun request other e heq => ?_
      cases heq
      rw [hparse]
      exact nofun
  · refine hrest ?_ (h.cons fun _ _ _ heq => nomatch heq)
    refine Prog.Only.andThen ((Prog.only_op trivial).orFail _) fun key => ?_
    refine (chooseEscrow_only (fun _ => trivial) id escrow).bind ?_
    rintro (_ | escrow)
    · exact ((Prog.only_op (hset _)).orFail _).andThen fun _ => trivial
    · exact (sealThenRotate_only hset (fun _ => trivial) (fun _ => trivial) escrow key).andThen
        fun _ => trivial

/-- The last notification of a run in which a key was refused. -/
def RefusalTold (calls : Calls) : Prop :=
  ∀ request key e, (⟨.requestMgmtKey request, .ok (.hex key)⟩ : Call) ∈ calls →
    parseMgmtKey key (fun e => e) = .error e →
    (notices calls).getLast? = some (.completed ⟨.error, none, some e.text⟩)

theorem guards_refusalTold (certs : CertBuilder) (card : CardMeta) (cfg : ProvisionConfig)
    (escrow : Option Escrow) {calls : Calls} (h : Accepted calls) :
    (run certs card cfg escrow).Guards (fun _ _ => True) (fun _ calls => RefusalTold calls) calls := by
  have hask : ∀ request, Choiceless (.requestSecret request) := fun _ => trivial
  have hfree : ∀ {α β : Type} {p : ProvProg (Result α)} {f : α → ProvProg (Result β)} {calls : Calls},
      p.Only Choiceless → Accepted calls →
      (∀ a calls, Accepted calls → (f a).Guards (fun _ _ => True) Refused calls) →
      (p.andThen f).Guards (fun _ _ => True) Refused calls := fun hp h hf =>
    Prog.Guards.andThen (guards_accepted hp h) (fun e _ h => h.refused _) hf
  have htell : ∀ {β : Type} {n : Nat} {token message : String} {p : ProvProg (Result β)} {calls : Calls},
      Accepted calls → (∀ calls, Accepted calls → p.Guards (fun _ _ => True) Refused calls) →
      (progressStep n token message >>= fun _ => p).Guards (fun _ _ => True) Refused calls :=
    fun h hp => ⟨trivial, fun _ => hp _ (h.cons fun _ _ _ heq => nomatch heq)⟩
  have hcard : ∀ op, Choiceless (.onCard card op) := fun _ => trivial
  have hsecrets : ∀ calls, Accepted calls →
      (changeSecrets card cfg escrow).Guards (fun _ _ => True) Refused calls := by
    intro calls h
    refine htell h fun calls h => ?_
    refine hfree (collectNewSecret_only hask ..) h fun pin calls h => ?_
    refine hfree ((Prog.only_op (hcard (.changePin defaultPin pin))).orFail _) h fun _ calls h => ?_
    refine hfree (collectNewSecret_only hask ..) h fun puk calls h => ?_
    refine hfree ((Prog.only_op (hcard (.changePuk defaultPuk puk))).orFail _) h fun _ calls h => ?_
    exact htell h fun calls h => guards_rotateMgmtKey card _ escrow h
  have hinner : (runInner certs card cfg escrow).Guards (fun _ _ => True) Refused calls := by
    refine hfree ((writeKeys_only certs card cfg).mono fun _ h => (KeyOps.plain h).choiceless) h ?_
    intro serves calls h
    refine (hsecrets calls h).andThen ?_ ?_
    · intro e calls hrefused request key e' hmem hparse
      exact congrArg _ (Except.error.inj (hrefused request key e' hmem hparse))
    · intro a calls hrefused request key e' hmem hparse
      exact nomatch hrefused request key e' hmem hparse
  refine Prog.guards_bind.mpr (hinner.mono fun result calls hrefused => ?_)
  have hlast : ∀ event calls, (notices (⟨.completed event, ()⟩ :: calls)).getLast? =
      some (.completed event) := by
    intro event calls
    rw [notices, List.reverse_cons, List.filterMap_append]
    exact List.getLast?_append_of_ne_nil _ (List.cons_ne_nil _ _)
  rcases result with e | outcome
  · refine ⟨trivial, fun _ request key e' hmem hparse => ?_⟩
    rcases List.mem_cons.mp hmem with heq | hmem
    · cases heq
    · cases hrefused request key e' hmem hparse
      exact hlast _ _
  · refine ⟨trivial, fun _ request key e' hmem hparse => ?_⟩
    rcases List.mem_cons.mp hmem with heq | hmem
    · cases heq
    · exact nomatch hrefused request key e' hmem hparse

theorem refusalTold_provisionWithFrontend (certs : CertBuilder) (reader : KeyReader)
    (selector : CardSelector) (allowReprovision : Bool) (policies : SlotPolicies) (mode : SealMode) :
    (provisionWithFrontend certs reader selector allowReprovision policies mode).Guards
      (fun _ _ => True) (fun _ calls => RefusalTold calls) [] := by
  have htold : ∀ {calls : Calls}, Accepted calls → RefusalTold calls :=
    fun h request key e hmem hparse => absurd hparse (h request key e hmem)
  have hfree : ∀ {α β : Type} {p : ProvProg (Result α)} {f : α → ProvProg (Result β)} {calls : Calls},
      p.Only Choiceless → Accepted calls →
      (∀ a calls, Accepted calls → (f a).Guards (fun _ _ => True) (fun _ calls => RefusalTold calls) calls) →
      (p.andThen f).Guards (fun _ _ => True) (fun _ calls => RefusalTold calls) calls := fun hp h hf =>
    Prog.Guards.andThen (guards_accepted hp h) (fun _ _ h => htold h) hf
  have hcards : Choiceless (.enumerateTokens true) := trivial
  refine hfree ((Prog.only_op hcards).orFail _) (fun _ _ _ hmem => nomatch hmem) fun cards calls h => ?_
  split
  · exact htold h
  next card hselect =>
  have hcard : ∀ op, Choiceless (.onCard card op) := fun _ => trivial
  refine ⟨trivial, fun version => ?_⟩
  refine hfree (drawGuid_only trivial) (h.cons fun _ _ _ heq => nomatch heq) fun guid calls h => ?_
  refine hfree (prepareEscrow_only (fun _ => hcard _) (fun _ => trivial) (fun _ => trivial) mode _) h
    fun escrow calls h => ?_
  refine hfree ((Prog.only_op (hcard .beginPinSession)).orFail _) h fun _ calls h => ?_
  exact guards_refusalTold certs card _ escrow h

/-- The error of a refused key tells its first character that is no digit. -/
theorem firstInvalid_of_text {key key' : String} {parsed parsed' : Result Bytes}
    (hcheck : keyCheck key parsed = keyCheck key' parsed')
    (h : ∀ e e', parseMgmtKey key (fun e => e) = .error e →
      parseMgmtKey key' (fun e => e) = .error e' → e.text = e'.text) :
    firstInvalid key = firstInvalid key' := by
  obtain ⟨-, hhex, hlength⟩ := KeyCheck.mk.inj hcheck
  rcases decoded key with ⟨hodd, hfirst, hdecode⟩ | ⟨b, i, heven, hfirst, hdecode⟩ |
    ⟨out, hfirst, hdecode, hout⟩
  · rcases decoded key' with ⟨_, hfirst', _⟩ | ⟨b', i', heven', _, _⟩ | ⟨out', hfirst', _, _⟩
    · rw [hfirst, hfirst']
    · omega
    · rw [hfirst, hfirst']
  · rcases decoded key' with ⟨hodd', _, _⟩ | ⟨b', i', _, hfirst', hdecode'⟩ | ⟨out', _, hdecode', _⟩
    · omega
    · have hparse : parseMgmtKey key (fun e => e) = .error (.badMgmtKey (hexDecodeFrom.invalid b i)) := by
        rw [parseMgmtKey, hdecode]
      have hparse' : parseMgmtKey key' (fun e => e) =
          .error (.badMgmtKey (hexDecodeFrom.invalid b' i')) := by
        rw [parseMgmtKey, hdecode']
      have htext : "supplied management key is not valid 24-byte hex: " ++ hexDecodeFrom.invalid b i =
          "supplied management key is not valid 24-byte hex: " ++ hexDecodeFrom.invalid b' i' :=
        h _ _ hparse hparse'
      obtain ⟨rfl, rfl⟩ := invalid_inj (String.append_right_inj _ |>.mp htext)
      rw [hfirst, hfirst']
    · rw [hdecode, hdecode'] at hhex
      cases hhex
  · rcases decoded key' with ⟨_, hfirst', _⟩ | ⟨b', i', _, _, hdecode'⟩ | ⟨out', hfirst', _, _⟩
    · rw [hfirst, hfirst']
    · rw [hdecode, hdecode'] at hhex
      cases hhex
    · rw [hfirst, hfirst']

/-! ## Two runs -/

/-- What the engine is run for. -/
inductive Errand where
  | init (selector : CardSelector) (allowReprovision : Bool) (policies : SlotPolicies) (mode : SealMode)
  | addKey (selector : CardSelector) (args : AddKeyArgs)

/-- The program of an errand. -/
def Errand.program (certs : CertBuilder) (reader : KeyReader) : Errand → ProvProg Unit
  | .init selector allowReprovision policies mode =>
    provisionWithFrontend certs reader selector allowReprovision policies mode >>= fun _ => pure ()
  | .addKey selector args => addKeyWithFrontend certs reader selector args >>= fun _ => pure ()

/-- New keys that two runs were given as digits have the same first character that is none. -/
def Errand.Discreet (pairs : List (Call × Call)) : Errand → Prop
  | .init _ _ _ _ => ∀ x ∈ pairs.filterMap hexKeys, firstInvalid x.1 = firstInvalid x.2
  | .addKey _ _ => True

theorem hexKeys_eq_some {c : Call × Call} {x : String × String} (h : hexKeys c = some x) :
    ∃ request request', c = (⟨.requestMgmtKey request, .ok (.hex x.1)⟩,
      ⟨.requestMgmtKey request', .ok (.hex x.2)⟩) := by
  unfold hexKeys at h
  split at h
  · next request key request' key' =>
    cases h
    exact ⟨request, request', rfl⟩
  · cases h

/-- Two runs that only differ in the contents of secrets notify alike, unless the errors of a
refused new key name different characters. -/
theorem notices_alike_iff (certs : CertBuilder) (reader : KeyReader) (errand : Errand)
    {calls calls' : Calls} (hrun : (errand.program certs reader).Leads calls (.ret ()))
    (hrun' : (errand.program certs reader).Leads calls' (.ret ()))
    (hpairs : SameOutcomes (Prog.callPairs calls calls')) :
    notices calls = notices calls' ↔ errand.Discreet (Prog.callPairs calls calls') := by
  have halike : ∀ {p : ProvProg Unit}, Alongside (Prog.callPairs calls calls') (fun _ _ => True) p p →
      p.Leads calls (.ret ()) → p.Leads calls' (.ret ()) → notices calls = notices calls' := by
    intro p hp h h'
    obtain ⟨-, hsame⟩ := hp.runs h h' fun x hmem => hmem
    rw [notices, notices]
    generalize calls.reverse = older, calls'.reverse = older' at hsame
    induction hsame with
    | nil => rfl
    | cons hnotice _ ih => rw [List.filterMap_cons, List.filterMap_cons, hnotice, ih]
  cases errand with
  | init selector allowReprovision policies mode =>
    constructor
    · intro hnotices x hmem
      obtain ⟨c, hc, hx⟩ := List.mem_filterMap.mp hmem
      obtain ⟨request, request', rfl⟩ := hexKeys_eq_some hx
      obtain ⟨hmem, hmem'⟩ := List.of_mem_zip hc
      have hguards : ((Errand.init selector allowReprovision policies mode).program certs reader).Guards
          (fun _ _ => True) (fun _ calls => RefusalTold calls) [] := Prog.guards_bind.mpr
        (refusalTold_provisionWithFrontend certs reader selector allowReprovision policies mode)
      have hchoice := Except.ok.inj (Known.choice.inj (hpairs.answers _ hc))
      refine firstInvalid_of_text (ChoiceCheck.hex.inj hchoice) fun e e' hparse hparse' => ?_
      have hlast := Prog.Leads.guards hrun hguards request x.1 e (List.mem_reverse.mp hmem) hparse
      have hlast' := Prog.Leads.guards hrun' hguards request' x.2 e' (List.mem_reverse.mp hmem') hparse'
      rw [hnotices, hlast'] at hlast
      obtain ⟨-, -, htext⟩ := CompletedEvent.mk.inj (Notice.completed.inj (Option.some.inj hlast))
      exact (Option.some.inj htext).symm
    · intro hkeys
      refine halike ?_ hrun hrun'
      exact (alongside_provisionWithFrontend hpairs certs reader selector allowReprovision policies mode
        hkeys).bind fun _ _ _ => trivial
  | addKey selector args =>
    refine ⟨fun _ => trivial, fun _ => halike ?_ hrun hrun'⟩
    exact (alongside_addKeyWithFrontend hpairs certs reader selector args).bind fun _ _ _ => trivial

/-! ## A mistyped key -/

/-- An operator who types a PIN and a new management key. -/
def typing (pin key : String) : (op : ProvOp) → ProvAns op
  | .requestSecret _ => .ok pin
  | .requestMgmtKey _ => .ok (.hex key)
  | op => obliging sampleObject op

def sampleErrand : Errand := .init .auto false .initial .never

/-- The calls of that operator's `card init`. -/
def typedCalls (pin key : String) : Calls :=
  (Prog.runWith (fun op calls => (typing pin key op, ⟨op, typing pin key op⟩ :: calls))
    (sampleErrand.program sampleCerts sampleReader) ([] : Calls)).2

theorem leads_typedCalls (pin key : String) :
    (sampleErrand.program sampleCerts sampleReader).Leads (typedCalls pin key) (.ret ()) := by
  have hend : ∀ {calls : Calls} {u : Unit}, (sampleErrand.program sampleCerts sampleReader).Leads calls
      (.ret u) → (sampleErrand.program sampleCerts sampleReader).Leads calls (.ret ()) := fun h => h
  exact hend (Prog.leads_runWith (typing pin key) (.refl _))

/-- What is computed of two runs to see that their outcomes are the same. -/
def typedChecks (calls calls' : Calls) : Prop :=
  (∀ x ∈ Prog.callPairs calls calls', known x.1 = known x.2) ∧
    SameMatches .newPin .confirmNewPin (Prog.callPairs calls calls') ∧
    SameMatches .newPuk .confirmNewPuk (Prog.callPairs calls calls')

instance (calls calls' : Calls) : Decidable (typedChecks calls calls') :=
  inferInstanceAs (Decidable (_ ∧ _ ∧ _))

theorem sameOutcomes_of_typedChecks {calls calls' : Calls} (h : typedChecks calls calls') :
    SameOutcomes (Prog.callPairs calls calls') :=
  ⟨h.1, h.2.1, h.2.2⟩

/-- Two operators mistype different keys at the same place. -/
theorem notices_alike_typed :
    notices (typedCalls "234567" "0102030405060708010203040506070801020304050607xx") =
      notices (typedCalls "765432" "A1A2A3A4A5A6A7A8A1A2A3A4A5A6A7A8A1A2A3A4A5A6A7xy") := by
  obtain ⟨hchecks, hkeys⟩ : typedChecks
      (typedCalls "234567" "0102030405060708010203040506070801020304050607xx")
      (typedCalls "765432" "A1A2A3A4A5A6A7A8A1A2A3A4A5A6A7A8A1A2A3A4A5A6A7xy") ∧
      ∀ x ∈ (Prog.callPairs
        (typedCalls "234567" "0102030405060708010203040506070801020304050607xx")
        (typedCalls "765432" "A1A2A3A4A5A6A7A8A1A2A3A4A5A6A7A8A1A2A3A4A5A6A7xy")).filterMap hexKeys,
        firstInvalid x.1 = firstInvalid x.2 := by
    decide +kernel
  exact (notices_alike_iff sampleCerts sampleReader sampleErrand (leads_typedCalls _ _)
    (leads_typedCalls _ _) (sameOutcomes_of_typedChecks hchecks)).mpr hkeys

/-- Two operators mistype the same digit of the same key: the notifications name the letters. -/
theorem not_notices_alike : ¬ ∀ (certs : CertBuilder) (reader : KeyReader) (errand : Errand)
    (calls calls' : Calls), (errand.program certs reader).Leads calls (.ret ()) →
    (errand.program certs reader).Leads calls' (.ret ()) →
    SameOutcomes (Prog.callPairs calls calls') → notices calls = notices calls' := by
  intro h
  obtain ⟨hchecks, hnotices⟩ : typedChecks
      (typedCalls "234567" "g102030405060708010203040506070801020304050607A8")
      (typedCalls "234567" "h102030405060708010203040506070801020304050607A8") ∧
      notices (typedCalls "234567" "g102030405060708010203040506070801020304050607A8") ≠
        notices (typedCalls "234567" "h102030405060708010203040506070801020304050607A8") := by
    decide +kernel
  exact hnotices (h sampleCerts sampleReader sampleErrand _ _ (leads_typedCalls _ _)
    (leads_typedCalls _ _) (sameOutcomes_of_typedChecks hchecks))

end Piggy.Provision
