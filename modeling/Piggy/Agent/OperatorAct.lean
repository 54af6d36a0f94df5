import Piggy.Agent.Selection
import Piggy.Markl.Purpose
import Piggy.Core.Lists

/-!
# Operator acts

An operator act is a text that a person reads before it is signed. What is signed names one of
three namespaces; no other way of signing takes such data. The same bytes are used by the
agent, by a proxy and by the client: requests, the data that is signed, and what is shown above
the line for the PIN.
-/

namespace Piggy.Agent

open Piggy.Core Piggy.Box Piggy.Markl

/-- The name of the extension. -/
def operatorActExtension : String := "operator-act@piggy"

def actVersion : Nat := 1

def maxTextBytes : Nat := 4096

/-- The bytes `SSHSIG`. -/
def sshsigMagic : Bytes := [0x53, 0x53, 0x48, 0x53, 0x49, 0x47]

def sshsigVersion : Nat := 1

/-- The SHA-2 hashes, which belong to a library. -/
structure Sha2 where
  sha256 : Bytes → Bytes
  sha384 : Bytes → Bytes
  sha512 : Bytes → Bytes

/-- How an act is shown. -/
inductive DisplayClass where
  | quote
  | escalation
  | certificate
  deriving DecidableEq

/-- The name of a class. -/
def DisplayClass.asStr : DisplayClass → String
  | quote => "quote"
  | escalation => "escalation"
  | certificate => "certificate"

/-- The class of a namespace that is registered for operator acts. -/
def displayClass (name : String) : Option DisplayClass :=
  if name = "piggy-quote-v1" then some .quote
  else if name = "piggy-escalation-v1" then some .escalation
  else if name = "piggy-certificate-v1" then some .certificate
  else none

def namespaces : List String := ["piggy-quote-v1", "piggy-escalation-v1", "piggy-certificate-v1"]

/-- The hashes of an SSH signature. -/
inductive HashAlgorithm where
  | sha256
  | sha512
  deriving DecidableEq

namespace HashAlgorithm

/-- The name of a hash. -/
def asStr : HashAlgorithm → String
  | sha256 => "sha256"
  | sha512 => "sha512"

/-- The hash of a name. -/
def parse (name : String) : Option HashAlgorithm :=
  if name = "sha256" then some sha256 else if name = "sha512" then some sha512 else none

/-- The digest of a text. -/
def digest (sha : Sha2) : HashAlgorithm → Bytes → Bytes
  | sha256 => sha.sha256
  | sha512 => sha.sha512

end HashAlgorithm

/-- The outcome of a request. -/
inductive Status where
  | signed
  | noSuchKey
  | refusedPolicy
  | refusedNamespace
  | refusedText
  | cancelled
  | cardAbsent
  | badRequest
  | error
  deriving DecidableEq

/-- The code of a status. -/
def Status.code : Status → Nat
  | signed => 0
  | noSuchKey => 1
  | refusedPolicy => 2
  | refusedNamespace => 3
  | refusedText => 4
  | cancelled => 5
  | cardAbsent => 6
  | badRequest => 7
  | error => 8

/-! ## Wire fields -/

/-- A word, big-endian. -/
def putU32 (value : Nat) : Bytes := toBe 4 value

/-- A text with its length in front. -/
def putString (bytes : Bytes) : Bytes := putU32 bytes.length ++ bytes

/-- A word at the front, and the rest. -/
def readU32 (rest : Bytes) : Option (Nat × Bytes) :=
  if rest.length < 4 then none else some (ofBe (rest.take 4), rest.drop 4)

/-- A text at the front, and the rest. -/
def readString (rest : Bytes) : Option (Bytes × Bytes) := do
  let (len, rest) ← readU32 rest
  if rest.length < len then none else some (rest.take len, rest.drop len)

/-- The one string that the payload of an extension is. -/
def contents (details : Bytes) : Option Bytes := do
  let (inner, rest) ← readString details
  if rest = [] then some inner else none

/-- The key of a request, whatever else is in it. -/
def requestKey (details : Bytes) : Option Bytes := do
  let inner ← contents details <|> (readString details).map Prod.fst
  let (_, rest) ← readU32 inner
  let (key, _) ← readString rest
  some key

/-- A request as it arrives. -/
structure ActRequest where
  key : Bytes
  namespaceName : String
  hashAlgorithm : String
  text : Bytes
  deriving DecidableEq

namespace ActRequest

/-- The bytes of a request. -/
def encode (r : ActRequest) : Bytes :=
  putString (putU32 actVersion ++ putString r.key ++ putString (strBytes r.namespaceName) ++
    putString (strBytes r.hashAlgorithm) ++ putString r.text ++ putU32 0)

/-- Nothing for a malformed request. -/
def decode (details : Bytes) : Option ActRequest := do
  let rest ← contents details
  let (version, rest) ← readU32 rest
  if version ≠ actVersion then none
  else
    let (key, rest) ← readString rest
    let (name, rest) ← readString rest
    let (hash, rest) ← readString rest
    let hashAlgorithm ← (fromUtf8 hash).toOption
    let (text, rest) ← readString rest
    let (flags, rest) ← readU32 rest
    if flags ≠ 0 ∨ rest ≠ [] then none
    else some ⟨key, String.ofList (fromUtf8Lossy name), hashAlgorithm, text⟩

end ActRequest

/-- An answer: a signature, or a refusal with its reason. -/
structure ActResponse where
  status : Status
  sshsig : Bytes
  detail : String
  deriving DecidableEq

namespace ActResponse

/-- An answer without a signature. -/
def refusal (status : Status) (detail : String) : ActResponse := ⟨status, [], detail⟩

/-- An answer with a signature. -/
def ofSigned (sshsig : Bytes) : ActResponse := ⟨.signed, sshsig, ""⟩

/-- The bytes of an answer. -/
def encode (r : ActResponse) : Bytes :=
  putString (putU32 actVersion ++ putU32 r.status.code ++ putString r.sshsig ++
    putString (strBytes r.detail))

end ActResponse

/-! ## Texts and signed data -/

/-- A control character. -/
def isControl (c : Char) : Bool := c.toNat < 0x20 || (0x7F ≤ c.toNat && c.toNat < 0xA0)

/-- The text as it can be shown. -/
def displayableText (text : Bytes) : Option String :=
  if text = [] ∨ maxTextBytes < text.length then none
  else match fromUtf8 text with
    | .error _ => none
    | .ok s => if s.toList.all fun c => c = '\n' || c = '\t' || !isControl c then some s else none

/-- The data that a key signs for an act. -/
def signedData (sha : Sha2) (name : String) (hash : HashAlgorithm) (text : Bytes) : Bytes :=
  sshsigMagic ++ putString (strBytes name) ++ putString [] ++ putString (strBytes hash.asStr) ++
    putString (hash.digest sha text)

/-- The namespace that data would be signed under. -/
def namespaceOfSignedData (data : Bytes) : Option String :=
  if sshsigMagic.isPrefixOf data then do
    let (name, _) ← readString (data.drop sshsigMagic.length)
    namespaces.find? fun registered => strBytes registered = name
  else none

/-- The gate of every other way of signing. -/
def refuseOperatorActSignedData (data : Bytes) : Except String Unit :=
  match namespaceOfSignedData data with
  | none => .ok ()
  | some name => .error (s!"refusing to sign sshsig data for namespace {name} here: " ++
      s!"it is signed only through {operatorActExtension}, which shows the text first")

/-- The blob of an SSH signature. -/
def sshsigBlob (publicKey : Bytes) (name : String) (hash : HashAlgorithm) (signature : Bytes) :
    Bytes :=
  sshsigMagic ++ putU32 sshsigVersion ++ putString publicKey ++ putString (strBytes name) ++
    putString [] ++ putString (strBytes hash.asStr) ++ putString signature

/-- A signature with its algorithm. -/
def sshSignature (algorithm : String) (data : Bytes) : Bytes :=
  putString (strBytes algorithm) ++ putString data

/-- What is shown above the line for the PIN. -/
def promptContext (cls : DisplayClass) (card : String) (slot : UInt8) (name text : String) : String :=
  "operator act: " ++ cls.asStr ++ "\ncard " ++ card ++ ", slot " ++ String.ofList (hexUpper slot) ++
    "\nnamespace " ++ name ++ "\n\n" ++ text

/-! ## What the fields determine -/

theorem readU32_putU32 {n : Nat} (h : n < 2 ^ 32) (rest : Bytes) :
    readU32 (putU32 n ++ rest) = some (n, rest) := by
  have hlen : ¬ (putU32 n ++ rest).length < 4 := by
    rw [List.length_append, putU32, length_toBe]
    omega
  rw [readU32, if_neg hlen, putU32, List.take_left' (length_toBe 4 n),
    List.drop_left' (length_toBe 4 n), ofBe_toBe, Nat.mod_eq_of_lt (by norm_num; exact h)]

/-- A string is read exactly where one was put. -/
theorem readString_eq_some {bytes value rest : Bytes} :
    readString bytes = some (value, rest) ↔
      value.length < 2 ^ 32 ∧ bytes = putString value ++ rest := by
  constructor
  · intro h
    rw [readString, readU32] at h
    split at h
    · cases h
    · next hlen =>
      have hwidth : (bytes.take 4).length = 4 := by
        rw [List.length_take]
        omega
      have hlt : ofBe (bytes.take 4) < 2 ^ 32 := by
        have := ofBe_lt (bytes.take 4)
        rw [hwidth] at this
        norm_num at this
        exact this
      simp only [Option.bind_eq_bind, Option.bind_some] at h
      split at h
      · cases h
      · next henough =>
        cases h
        have hlength : ((bytes.drop 4).take (ofBe (bytes.take 4))).length = ofBe (bytes.take 4) := by
          rw [List.length_take]
          omega
        refine ⟨by omega, ?_⟩
        rw [putString, putU32, hlength, toBe_ofBe hwidth, List.append_assoc,
          List.take_append_drop, List.take_append_drop]
  · rintro ⟨hlt, rfl⟩
    rw [readString, putString, List.append_assoc, readU32_putU32 hlt]
    simp

theorem readString_putString {value : Bytes} (h : value.length < 2 ^ 32) (rest : Bytes) :
    readString (putString value ++ rest) = some (value, rest) := readString_eq_some.mpr ⟨h, rfl⟩

theorem contents_putString {value : Bytes} (h : value.length < 2 ^ 32) :
    contents (putString value) = some value := by
  have hread := readString_putString h []
  rw [List.append_nil] at hread
  rw [contents, hread]
  rfl

namespace ActRequest

/-- What is inside an encoded request. -/
private def fields (r : ActRequest) : Bytes :=
  putU32 actVersion ++ putString r.key ++ putString (strBytes r.namespaceName) ++
    putString (strBytes r.hashAlgorithm) ++ putString r.text ++ putU32 0

variable {r : ActRequest}

private theorem le_length_fields (r : ActRequest) :
    r.key.length ≤ (fields r).length ∧ (strBytes r.namespaceName).length ≤ (fields r).length ∧
      (strBytes r.hashAlgorithm).length ≤ (fields r).length ∧ r.text.length ≤ (fields r).length := by
  simp only [fields, putString, List.length_append]
  omega

/-- A request that fits its length fields is read as it was written. -/
theorem decode_encode (h : r.encode.length < 2 ^ 32) : decode r.encode = some r := by
  have hencode : r.encode = putString (fields r) := rfl
  have hfields : (fields r).length < 2 ^ 32 := by
    rw [hencode, putString, List.length_append] at h
    omega
  obtain ⟨hkey, hname, hhash, htext⟩ := le_length_fields r
  have hutf8 : ∀ s : String, fromUtf8 (strBytes s) = .ok s := fun s => fromUtf8_ok.mpr rfl
  have hlossy : ∀ s : String, String.ofList (fromUtf8Lossy (strBytes s)) = s := by
    intro s
    rw [fromUtf8Lossy, hutf8]
    exact String.ofList_toList
  have hzero : readU32 (putU32 0) = some (0, []) := by
    rw [← List.append_nil (putU32 0)]
    exact readU32_putU32 (by decide) []
  rw [decode, hencode, contents_putString hfields, fields]
  simp only [Option.bind_eq_bind, Option.bind_some, List.append_assoc]
  rw [readU32_putU32 (by decide)]
  simp only [Option.bind_some, ne_eq, not_true_eq_false, if_false]
  rw [readString_putString (by omega)]
  simp only [Option.bind_some]
  rw [readString_putString (by omega)]
  simp only [Option.bind_some]
  rw [readString_putString (by omega)]
  simp only [Option.bind_some, hutf8, Except.toOption]
  rw [readString_putString (by omega)]
  simp only [Option.bind_some, hzero, hlossy]
  simp

theorem requestKey_encode (h : r.encode.length < 2 ^ 32) : requestKey r.encode = some r.key := by
  have hencode : r.encode = putString (fields r) := rfl
  have hfields : (fields r).length < 2 ^ 32 := by
    rw [hencode, putString, List.length_append] at h
    omega
  obtain ⟨hkey, -⟩ := le_length_fields r
  rw [requestKey, hencode, contents_putString hfields]
  show (some (fields r)).bind _ = _
  rw [Option.bind_some, fields]
  simp only [List.append_assoc]
  rw [readU32_putU32 (by decide)]
  show (readString _).bind _ = _
  rw [readString_putString (by omega)]
  rfl

end ActRequest

/-- The data that is signed for an operator act: the magic and a registered namespace, whatever
follows. -/
def ActData (name : String) (data : Bytes) : Prop :=
  name ∈ namespaces ∧ ∃ rest, data = sshsigMagic ++ putString (strBytes name) ++ rest

theorem length_strBytes_of_mem {name : String} (h : name ∈ namespaces) :
    (strBytes name).length < 2 ^ 32 := by
  have hall : ∀ name ∈ namespaces, (strBytes name).length < 2 ^ 32 := by decide +kernel
  exact hall name h

/-- The namespace that is found is the one that the data names. -/
theorem namespaceOfSignedData_eq_some {data : Bytes} {name : String} :
    namespaceOfSignedData data = some name ↔ ActData name data := by
  constructor
  · intro h
    rw [namespaceOfSignedData] at h
    split at h
    · next hmagic =>
      obtain ⟨rest, rfl⟩ := List.isPrefixOf_iff_prefix.mp hmagic
      rw [List.drop_left, Option.bind_eq_bind, Option.bind_eq_some_iff] at h
      obtain ⟨⟨value, rest'⟩, hread, hfind⟩ := h
      obtain ⟨-, rfl⟩ := readString_eq_some.mp hread
      dsimp only at hfind
      have hsame : strBytes name = value := by simpa using List.find?_some hfind
      subst hsame
      exact ⟨List.mem_of_find?_eq_some hfind, rest', (List.append_assoc ..).symm⟩
    · cases h
  · rintro ⟨hmem, rest, rfl⟩
    have hmagic : sshsigMagic.isPrefixOf (sshsigMagic ++ putString (strBytes name) ++ rest) := by
      rw [List.isPrefixOf_iff_prefix, List.append_assoc]
      exact List.prefix_append ..
    have hread := readString_eq_some.mpr ⟨length_strBytes_of_mem hmem, (rfl :
      putString (strBytes name) ++ rest = _)⟩
    rw [namespaceOfSignedData, if_pos hmagic, List.append_assoc, List.drop_left, hread]
    simp only [Option.bind_eq_bind, Option.bind_some]
    rcases hfind : namespaces.find? fun registered => strBytes registered = strBytes name with _ | other
    · rw [List.find?_eq_none] at hfind
      simpa using hfind name hmem
    · have hsame : strBytes other = strBytes name := by simpa using List.find?_some hfind
      rw [strBytes_inj hsame]

/-- The gate refuses the data of operator acts and nothing else. -/
theorem refuseOperatorActSignedData_ok {data : Bytes} :
    refuseOperatorActSignedData data = .ok () ↔ ∀ name, ¬ ActData name data := by
  rw [refuseOperatorActSignedData]
  rcases hname : namespaceOfSignedData data with _ | name
  · refine iff_of_true rfl fun name hact => ?_
    rw [namespaceOfSignedData_eq_some.mpr hact] at hname
    cases hname
  · refine iff_of_false nofun fun h => h name (namespaceOfSignedData_eq_some.mp hname)

theorem displayClass_isSome {name : String} : (displayClass name).isSome ↔ name ∈ namespaces := by
  simp only [displayClass, namespaces, List.mem_cons, List.not_mem_nil, or_false]
  split
  · simp_all
  · split
    · simp_all
    · split <;> simp_all

/-- What is signed for an act is the data of an act of its namespace. -/
theorem actData_signedData {sha : Sha2} {name : String} (h : name ∈ namespaces)
    (hash : HashAlgorithm) (text : Bytes) : ActData name (signedData sha name hash text) := by
  refine ⟨h, putString [] ++ putString (strBytes hash.asStr) ++ putString (hash.digest sha text), ?_⟩
  simp only [signedData, List.append_assoc]

/-- Data is of one namespace only. -/
theorem ActData.unique {name name' : String} {data : Bytes} (h : ActData name data)
    (h' : ActData name' data) : name = name' := by
  rw [← namespaceOfSignedData_eq_some] at h h'
  rw [h] at h'
  exact Option.some.inj h'

/-! ## What is shown -/

private theorem toList_promptContext (cls : DisplayClass) (card : String) (slot : UInt8)
    (name text : String) :
    (promptContext cls card slot name text).toList =
      "operator act: ".toList ++ (cls.asStr.toList ++ '\n' :: ("card ".toList ++ (card.toList ++
        ',' :: (" slot ".toList ++ (hexUpper slot ++ '\n' :: ("namespace ".toList ++
          (name.toList ++ '\n' :: '\n' :: text.toList))))))) := by
  have hcard : "\ncard ".toList = '\n' :: "card ".toList := by simp
  have hslot : ", slot ".toList = ',' :: " slot ".toList := by simp
  have hname : "\nnamespace ".toList = '\n' :: "namespace ".toList := by simp
  have htext : "\n\n".toList = ['\n', '\n'] := by simp
  unfold promptContext
  simp only [String.toList_append, String.toList_ofList, List.append_assoc, hcard, hslot, hname,
    htext, List.cons_append, List.nil_append]

/-- The two digits of a byte. -/
private theorem hexUpper_inj {a b : UInt8} (h : hexUpper a = hexUpper b) : a = b := by
  have hall : ∀ n < 256, ((hexUpper (UInt8.ofNat n)).map fun c =>
      "0123456789ABCDEF".toList.idxOf c) = [n / 16, n % 16] := by
    decide +kernel
  have ha := hall a.toNat a.toNat_lt
  have hb := hall b.toNat b.toNat_lt
  rw [UInt8.ofNat_toNat] at ha hb
  rw [h, hb] at ha
  obtain ⟨hhigh, hlow⟩ := List.cons.inj ha
  have hlow := (List.cons.inj hlow).1
  exact UInt8.toNat_inj.mp (by omega)

private theorem newline_notMem_hexUpper (b : UInt8) : '\n' ∉ hexUpper b ∧ ',' ∉ hexUpper b := by
  have hall : ∀ n < 256, '\n' ∉ hexUpper (UInt8.ofNat n) ∧ ',' ∉ hexUpper (UInt8.ofNat n) := by
    decide +kernel
  have hb := hall b.toNat b.toNat_lt
  rwa [UInt8.ofNat_toNat] at hb

theorem comma_notMem_shortId (g : Guid) : ',' ∉ (guidShortId g).toList := by
  rw [guidShortId, String.toList_ofList, List.mem_flatMap]
  rintro ⟨b, -, hb⟩
  exact (newline_notMem_hexUpper b).2 hb

theorem DisplayClass.asStr_inj {a b : DisplayClass} (h : a.asStr = b.asStr) : a = b := by
  cases a <;> cases b <;> first | rfl | exact absurd h (by decide)

/-- What is shown determines the class, the card, the slot, the namespace and the text. -/
theorem promptContext_inj {cls cls' : DisplayClass} {g g' : Guid} {slot slot' : UInt8}
    {name name' text text' : String} (hname : name ∈ namespaces) (hname' : name' ∈ namespaces)
    (h : promptContext cls (guidShortId g) slot name text =
      promptContext cls' (guidShortId g') slot' name' text') :
    cls = cls' ∧ guidShortId g = guidShortId g' ∧ slot = slot' ∧ name = name' ∧ text = text' := by
  have hlists := congrArg String.toList h
  rw [toList_promptContext, toList_promptContext, List.append_cancel_left_eq] at hlists
  have hclass : ∀ c : DisplayClass, '\n' ∉ c.asStr.toList := by
    intro c
    cases c <;> decide
  have hnames : ∀ n ∈ namespaces, '\n' ∉ n.toList := by decide
  obtain ⟨hcls, hlists⟩ := append_cons_inj (hclass _) (hclass _) hlists
  rw [List.append_cancel_left_eq] at hlists
  obtain ⟨hcard, hlists⟩ := append_cons_inj (comma_notMem_shortId g) (comma_notMem_shortId g') hlists
  rw [List.append_cancel_left_eq] at hlists
  obtain ⟨hslot, hlists⟩ := append_cons_inj (newline_notMem_hexUpper slot).1
    (newline_notMem_hexUpper slot').1 hlists
  rw [List.append_cancel_left_eq] at hlists
  obtain ⟨hn, hlists⟩ := append_cons_inj (hnames name hname) (hnames name' hname') hlists
  refine ⟨DisplayClass.asStr_inj (String.toList_inj.mp hcls), String.toList_inj.mp hcard,
    hexUpper_inj hslot, String.toList_inj.mp hn, String.toList_inj.mp (List.cons.inj hlists).2⟩

end Piggy.Agent
