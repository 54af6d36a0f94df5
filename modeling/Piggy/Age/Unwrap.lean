import Piggy.Core.Runes
import Piggy.Age.Stanza

/-!
# Unwrapping file keys

The plugin goes through the stanzas of each file. A stanza is tried with the first identity
whose tag is the stanza's, and with no other one: two identities may have one tag, and the
stanzas of the second of them are then only ever tried with the first.
-/

namespace Piggy.Age

open Piggy.Core Piggy.Box

/-- What the plugin tells age besides the file keys. -/
inductive IdentityError where
  | internal (message : String)
  | stanza (fileIndex stanzaIndex : Nat) (message : String)
  deriving DecidableEq

/-- What happens while file keys are unwrapped. -/
inductive Event where
  | asked (fileIndex : Nat) (selfBlob partnerBlob : Bytes)
  | reported (error : IdentityError)
  | recovered (fileIndex : Nat)
  deriving DecidableEq

variable {Scalar Point σ : Type}

/-- What the loops change, with what has happened so far. -/
structure Unwrapping (σ : Type) where
  oracle : σ
  fileKeys : List (Nat × FileKey)
  events : List Event

namespace Unwrapping

/-- An error is told to age. -/
def report (w : Unwrapping σ) (error : IdentityError) : Unwrapping σ :=
  { w with events := w.events ++ [.reported error] }

/-- The key of a file is recovered. -/
def insert (w : Unwrapping σ) (file : Nat) (key : FileKey) : Unwrapping σ :=
  { w with fileKeys := (file, key) :: w.fileKeys, events := w.events ++ [.recovered file] }

end Unwrapping

/-- An oracle whose queries are kept with the file they are made for. -/
def traced (oracle : EcdhOracle σ) (file : Nat) : EcdhOracle (Unwrapping σ) where
  ecdh w selfBlob partnerBlob :=
    let (answer, s) := oracle.ecdh w.oracle selfBlob partnerBlob
    (answer, { w with oracle := s, events := w.events ++ [.asked file selfBlob partnerBlob] })

section

variable (c : Crates Scalar Point) (identities : List (Identity c))

/-- Tries one stanza. -/
def unwrapStanza (oracle : EcdhOracle σ) (file index : Nat) (stanza : Stanza) (w : Unwrapping σ) :
    Unwrapping σ :=
  match RecipientLine.fromStanza c stanza with
  | none => w
  | some (.error ()) => w.report (.stanza file index "invalid piv-p256 stanza")
  | some (.ok line) =>
    match identities.find? fun id => id.tag = line.tag with
    | none => w
    | some identity =>
      match unwrapFileKey c line identity.compressed (traced oracle file) w with
      | (.ok fileKey, w) => w.insert file fileKey
      | (.error e, w) => w.report (.stanza file index e.text)

/-- Goes through the stanzas of a file until it has its key. -/
def unwrapStanzas (oracle : EcdhOracle σ) (file : Nat) :
    Nat → List Stanza → Unwrapping σ → Unwrapping σ
  | _, [], w => w
  | index, stanza :: stanzas, w =>
    if (w.fileKeys.lookup file).isSome then w
    else unwrapStanzas oracle file (index + 1) stanzas
      (unwrapStanza c identities oracle file index stanza w)

/-- Goes through the files, from one on. -/
def unwrapFiles (oracle : EcdhOracle σ) : Nat → List (List Stanza) → Unwrapping σ → Unwrapping σ
  | _, [], w => w
  | file, stanzas :: files, w =>
    unwrapFiles oracle (file + 1) files (unwrapStanzas c identities oracle file 0 stanzas w)

/-- The file keys of files, given the agent if there is one. -/
def unwrapFileKeys (agentOracle : Except String (EcdhOracle σ)) (files : List (List Stanza)) (s : σ) :
    Unwrapping σ :=
  let w : Unwrapping σ := { oracle := s, fileKeys := [], events := [] }
  if identities.isEmpty then w
  else
    match agentOracle with
    | .error message => w.report (.internal message)
    | .ok oracle => unwrapFiles c identities oracle 0 files w

end

/-! ## Files, and an agent that holds some of the keys -/

section

variable {c : Crates Scalar Point}

/-- A stanza of a file: the file key sealed for a recipient, or anything else. -/
inductive Piece (c : Crates Scalar Point) where
  | sealed (recipient : Recipient c) (esk : Scalar)
  | foreign (stanza : Stanza)

/-- An age file: its key, and what its header has. -/
structure AgeFile (c : Crates Scalar Point) where
  key : FileKey
  pieces : List (Piece c)

/-- The stanza of a piece. -/
def Piece.stanza (key : FileKey) : Piece c → Stanza
  | .sealed recipient esk => (wrapFileKey c recipient key esk).toStanza c
  | .foreign stanza => stanza

/-- The header of a file. -/
def AgeFile.stanzas (file : AgeFile c) : List Stanza := file.pieces.map (·.stanza file.key)

/-- An oracle that gives the secret for the keys it holds and fails for the others. -/
def Answers (c : Crates Scalar Point) (oracle : EcdhOracle σ) (held : Point → Option Scalar) : Prop :=
  ∀ s p q, match held p with
    | some sk => c.publicKey sk = p ∧
      (oracle.ecdh s (ecPointToSshPubkeyBlob .nistP256 (c.toEncodedPoint false p))
        (ecPointToSshPubkeyBlob .nistP256 (c.toEncodedPoint false q))).1 =
        .ok (c.diffieHellman sk q)
    | none => ∃ e,
      (oracle.ecdh s (ecPointToSshPubkeyBlob .nistP256 (c.toEncodedPoint false p))
        (ecPointToSshPubkeyBlob .nistP256 (c.toEncodedPoint false q))).1 = .error e

/-- The keys that are derived for the added identities open nothing that was not sealed for
them. -/
structure RejectsOthers (identities : List (Identity c)) (held : Point → Option Scalar)
    (files : List (AgeFile c)) : Prop where
  sealed : ∀ file ∈ files, ∀ recipient esk, .sealed recipient esk ∈ file.pieces →
    ∀ id ∈ identities, id.compressed ≠ recipient.compressed → ∀ sk, held id.point = some sk →
    c.aeadDecrypt
      (encKey c (wrapFileKey c recipient file.key esk).epkCompressed id.compressed
        (c.diffieHellman sk (c.publicKey esk)))
      fileKeyBytes (wrapFileKey c recipient file.key esk).encryptedFileKey = none
  foreign : ∀ file ∈ files, ∀ stanza, .foreign stanza ∈ file.pieces →
    ∀ line, RecipientLine.fromStanza c stanza = some (.ok line) →
    ∀ id ∈ identities, ∀ sk, held id.point = some sk →
    ∀ q, c.fromSec1Bytes line.epkCompressed = some q →
    c.aeadDecrypt (encKey c line.epkCompressed id.compressed (c.diffieHellman sk q))
      fileKeyBytes line.encryptedFileKey = none

/-- A file has a stanza for an identity that was added and whose key is held. -/
def Openable (identities : List (Identity c)) (held : Point → Option Scalar) (file : AgeFile c) :
    Prop :=
  ∃ recipient esk, .sealed recipient esk ∈ file.pieces ∧
    (∃ id ∈ identities, id.compressed = recipient.compressed) ∧ (held recipient.point).isSome = true

/-- No query is made for a file after its key was recovered. -/
def NoneAsked (events : List Event) : Prop :=
  events.Pairwise fun e e' => ∀ file a b, e = .recovered file → e' ≠ .asked file a b

/-- The keys of exactly the files that can be opened are returned, and no query is made in vain. -/
structure Unwraps (identities : List (Identity c)) (held : Point → Option Scalar)
    (files : List (AgeFile c)) (w : Unwrapping σ) : Prop where
  returned : ∀ i key, w.fileKeys.lookup i = some key ↔
    ∃ file, files[i]? = some file ∧ file.key = key ∧ Openable identities held file
  noneAsked : NoneAsked w.events

/-- The first identity with the stanza's tag is the stanza's recipient, and its key is held. -/
def Piece.Tried (identities : List (Identity c)) (held : Point → Option Scalar) (piece : Piece c) :
    Prop :=
  ∃ recipient esk id, piece = .sealed recipient esk ∧
    identities.find? (fun id => id.tag = staticTag c recipient.compressed) = some id ∧
    id.compressed = recipient.compressed ∧ (held recipient.point).isSome = true

end

/-! ## One stanza -/

section

variable {c : Crates Scalar Point} {identities : List (Identity c)} {oracle : EcdhOracle σ}
  {held : Point → Option Scalar}

theorem CompressedKey.ext_compressed {k k' : CompressedKey c} (h : k.compressed = k'.compressed) :
    k = k' := by
  cases k
  cases k'
  cases h
  rfl

/-- What trying a file's stanzas may add to the events before the key is recovered. -/
def Event.Quiet (file : Nat) : Event → Prop
  | .asked f _ _ => f = file
  | .reported _ => True
  | .recovered _ => False

/-- What stanzas of a file do: they recover its key if one of them is to open, and otherwise
leave the keys as they are. -/
structure Goes (file : Nat) (key : FileKey) (opens : Prop) (w w' : Unwrapping σ) : Prop where
  fileKeys : (opens ∧ w'.fileKeys = (file, key) :: w.fileKeys) ∨ (¬ opens ∧ w'.fileKeys = w.fileKeys)
  events : ∃ es, (∀ e ∈ es, e.Quiet file) ∧
    (w'.events = w.events ++ es ∨ opens ∧ w'.events = w.events ++ es ++ [.recovered file])

/-- A line is opened with the secret that the oracle gives; the query is kept. -/
theorem unwrapFileKey_traced (oracle : EcdhOracle σ) (file : Nat) {line : RecipientLine}
    {pk p q : Bytes} (w : Unwrapping σ) (hself : uncompressed c pk = some p)
    (hpartner : uncompressed c line.epkCompressed = some q) :
    ∃ a b s answer, (oracle.ecdh w.oracle (ecPointToSshPubkeyBlob .nistP256 p)
        (ecPointToSshPubkeyBlob .nistP256 q)).1 = answer ∧
      unwrapFileKey c line pk (traced oracle file) w =
        ((answer.mapError UnwrapError.oracle).bind fun shared =>
          (c.aeadDecrypt (encKey c line.epkCompressed pk shared) fileKeyBytes
            line.encryptedFileKey).elim (.error .decrypt) .ok,
          { w with oracle := s, events := w.events ++ [.asked file a b] }) := by
  rcases hask : oracle.ecdh w.oracle (ecPointToSshPubkeyBlob .nistP256 p)
    (ecPointToSshPubkeyBlob .nistP256 q) with ⟨answer, s⟩
  refine ⟨ecPointToSshPubkeyBlob .nistP256 p, ecPointToSshPubkeyBlob .nistP256 q, s, answer, rfl, ?_⟩
  have htraced : (traced oracle file).ecdh w (ecPointToSshPubkeyBlob .nistP256 p)
      (ecPointToSshPubkeyBlob .nistP256 q) =
      (answer, { w with
        oracle := s
        events := w.events ++ [.asked file (ecPointToSshPubkeyBlob .nistP256 p)
          (ecPointToSshPubkeyBlob .nistP256 q)] }) := by
    simp only [traced, hask]
  rw [unwrapFileKey, hself, hpartner]
  dsimp only
  rw [htraced]
  cases answer with
  | error e => rfl
  | ok shared =>
    dsimp only [Except.mapError, Except.bind]
    cases c.aeadDecrypt (encKey c line.epkCompressed pk shared) fileKeyBytes line.encryptedFileKey <;>
      rfl

theorem aeadDecrypt_fileKey (hc : c.Lawful) (key : Bytes) (fileKey : FileKey) :
    c.aeadDecrypt key fileKeyBytes (c.aeadEncrypt key fileKey.1) = some fileKey := by
  have hsize : ∀ {n : Nat} (bytes : Bytes) (h : bytes.length = n),
      c.aeadDecrypt key n (c.aeadEncrypt key bytes) = some ⟨bytes, h⟩ := by
    rintro _ bytes rfl
    exact hc.aeadDecrypt_aeadEncrypt key bytes
  exact hsize fileKey.1 fileKey.2

/-- A foreign line is not opened; at most one query is made for it. -/
theorem unwrapFileKey_foreign (hans : Answers c oracle held) {files : List (AgeFile c)}
    (hothers : RejectsOthers identities held files) {file : AgeFile c} (hfile : file ∈ files)
    {stanza : Stanza} (hmem : .foreign stanza ∈ file.pieces) {line : RecipientLine}
    (hread : RecipientLine.fromStanza c stanza = some (.ok line)) {id : Identity c}
    (hid : id ∈ identities) (i : Nat) (w : Unwrapping σ) :
    ∃ es s e, (∀ event ∈ es, event.Quiet i) ∧
      unwrapFileKey c line id.compressed (traced oracle i) w =
        (.error e, { w with oracle := s, events := w.events ++ es }) := by
  cases hepk : c.fromSec1Bytes line.epkCompressed with
  | none =>
    have hpartner : uncompressed c line.epkCompressed = none := by
      rw [uncompressed, hepk, Option.map_none]
    refine ⟨[], w.oracle, .badKey, by simp, ?_⟩
    rw [unwrapFileKey, id.uncompressed_compressed, hpartner, List.append_nil]
  | some q =>
    have hpartner : uncompressed c line.epkCompressed = some (c.toEncodedPoint false q) := by
      rw [uncompressed, hepk, Option.map_some]
    obtain ⟨a, b, s, answer, hanswer, hrun⟩ :=
      unwrapFileKey_traced oracle i w id.uncompressed_compressed hpartner
    refine ⟨[.asked i a b], s, ?_⟩
    rw [hrun]
    have htrue := hans w.oracle id.point q
    rw [hanswer] at htrue
    cases hheld : held id.point with
    | none =>
      rw [hheld] at htrue
      obtain ⟨e, rfl⟩ := htrue
      exact ⟨.oracle e, by simp [Event.Quiet], rfl⟩
    | some sk =>
      rw [hheld] at htrue
      obtain ⟨-, rfl⟩ := htrue
      refine ⟨.decrypt, by simp [Event.Quiet], ?_⟩
      dsimp only [Except.mapError, Except.bind]
      rw [hothers.foreign file hfile stanza hmem line hread id hid sk hheld q hepk]
      rfl

/-- A sealed line gives the file key exactly to its own recipient, and only when the oracle holds
its key. -/
theorem unwrapFileKey_wrapFileKey (hc : c.Lawful) (hans : Answers c oracle held)
    {files : List (AgeFile c)} (hothers : RejectsOthers identities held files) {file : AgeFile c}
    (hfile : file ∈ files) {recipient : Recipient c} {esk : Scalar}
    (hmem : .sealed recipient esk ∈ file.pieces) {id : Identity c} (hid : id ∈ identities)
    (i : Nat) (w : Unwrapping σ) :
    ∃ a b s result,
      unwrapFileKey c (wrapFileKey c recipient file.key esk) id.compressed (traced oracle i) w =
        (result, { w with oracle := s, events := w.events ++ [.asked i a b] }) ∧
      (id.compressed = recipient.compressed ∧ (held recipient.point).isSome = true ∧
          result = .ok file.key ∨
        ¬ (id.compressed = recipient.compressed ∧ (held recipient.point).isSome = true) ∧
          ∃ e, result = .error e) := by
  have hpartner : uncompressed c (wrapFileKey c recipient file.key esk).epkCompressed =
      some (c.toEncodedPoint false (c.publicKey esk)) := by
    rw [uncompressed, wrapFileKey, hc.fromSec1Bytes_toEncodedPoint, Option.map_some]
  obtain ⟨a, b, s, answer, hanswer, hrun⟩ :=
    unwrapFileKey_traced oracle i w id.uncompressed_compressed hpartner
  refine ⟨a, b, s, _, hrun, ?_⟩
  have htrue := hans w.oracle id.point (c.publicKey esk)
  rw [hanswer] at htrue
  cases hheld : held id.point with
  | none =>
    rw [hheld] at htrue
    obtain ⟨e, rfl⟩ := htrue
    refine .inr ⟨?_, _, rfl⟩
    rintro ⟨heq, hsome⟩
    rw [← CompressedKey.ext_compressed heq, hheld] at hsome
    cases hsome
  | some sk =>
    rw [hheld] at htrue
    obtain ⟨hsk, rfl⟩ := htrue
    dsimp only [Except.mapError, Except.bind]
    by_cases heq : id.compressed = recipient.compressed
    · obtain rfl := CompressedKey.ext_compressed heq
      refine .inl ⟨rfl, by rw [hheld]; rfl, ?_⟩
      -- both sides derive the key from one secret
      have hshared : c.diffieHellman sk (c.publicKey esk) = c.diffieHellman esk id.point := by
        rw [hc.diffieHellman_comm, hsk]
      rw [hshared]
      dsimp only [wrapFileKey]
      rw [aeadDecrypt_fileKey hc]
      rfl
    · refine .inr ⟨fun h => heq h.1, .decrypt, ?_⟩
      rw [hothers.sealed file hfile recipient esk hmem id hid heq sk hheld]
      rfl

theorem Goes.quiet {i : Nat} {key : FileKey} {opens : Prop} {w w' : Unwrapping σ} (hno : ¬ opens)
    (es : List Event) (hes : ∀ e ∈ es, e.Quiet i) (hkeys : w'.fileKeys = w.fileKeys)
    (hevents : w'.events = w.events ++ es) : Goes i key opens w w' :=
  ⟨.inr ⟨hno, hkeys⟩, es, hes, .inl hevents⟩

/-- A stanza that nobody sealed here. -/
theorem unwrapStanza_foreign (hans : Answers c oracle held) {files : List (AgeFile c)}
    (hothers : RejectsOthers identities held files) {file : AgeFile c} (hfile : file ∈ files)
    {stanza : Stanza} (hpiece : .foreign stanza ∈ file.pieces) (i index : Nat) (w : Unwrapping σ) :
    Goes i file.key ((Piece.foreign stanza).Tried identities held) w
      (unwrapStanza c identities oracle i index stanza w) := by
  have hno : ¬ (Piece.foreign stanza).Tried identities held := by
    rintro ⟨_, _, _, h, -⟩
    cases h
  rw [unwrapStanza]
  rcases hread : RecipientLine.fromStanza c stanza with _ | _ | line
  · exact .quiet hno [] (by simp) rfl (by simp)
  · exact .quiet hno [_] (by simp [Event.Quiet]) rfl rfl
  · dsimp only
    cases hfind : identities.find? fun id => id.tag = line.tag with
    | none => exact .quiet hno [] (by simp) rfl (by simp)
    | some id =>
      obtain ⟨es, s, e, hes, hrun⟩ := unwrapFileKey_foreign hans hothers hfile hpiece hread
        (List.mem_of_find?_eq_some hfind) i w
      dsimp only
      rw [hrun]
      refine .quiet hno (es ++ [_]) ?_ rfl (List.append_assoc ..)
      intro e he
      rcases List.mem_append.mp he with he | he
      · exact hes e he
      · rw [List.mem_singleton.mp he]
        trivial

/-- A stanza that was sealed to a recipient. -/
theorem unwrapStanza_sealed (hc : c.Lawful) (hans : Answers c oracle held) {files : List (AgeFile c)}
    (hothers : RejectsOthers identities held files) {file : AgeFile c} (hfile : file ∈ files)
    {recipient : Recipient c} {esk : Scalar} (hpiece : .sealed recipient esk ∈ file.pieces)
    (i index : Nat) (w : Unwrapping σ) :
    Goes i file.key ((Piece.sealed recipient esk).Tried identities held) w
      (unwrapStanza c identities oracle i index ((Piece.sealed recipient esk).stanza file.key) w) := by
  dsimp only [Piece.stanza]
  rw [unwrapStanza, fromStanza_wrapFileKey hc]
  dsimp only
  cases hfind : identities.find? fun id => id.tag = (wrapFileKey c recipient file.key esk).tag with
  | none =>
    have hno : ¬ (Piece.sealed recipient esk).Tried identities held := by
      rintro ⟨recipient', esk', id, heq, hfind', -⟩
      cases heq
      cases hfind.symm.trans hfind'
    exact .quiet hno [] (by simp) rfl (by simp)
  | some id =>
    obtain ⟨a, b, s, result, hrun, h⟩ := unwrapFileKey_wrapFileKey hc hans hothers hfile hpiece
      (List.mem_of_find?_eq_some hfind) i w
    dsimp only
    rw [hrun]
    rcases h with ⟨heq, hheld, rfl⟩ | ⟨hno, e, rfl⟩
    · have htried : (Piece.sealed recipient esk).Tried identities held :=
        ⟨recipient, esk, id, rfl, hfind, heq, hheld⟩
      refine ⟨.inl ⟨htried, rfl⟩, [_], ?_, .inr ⟨htried, rfl⟩⟩
      simp [Event.Quiet]
    · have hno' : ¬ (Piece.sealed recipient esk).Tried identities held := by
        rintro ⟨recipient', esk', id', heq, hfind', h⟩
        cases heq
        obtain rfl := Option.some.inj (hfind.symm.trans hfind')
        exact hno h
      refine .quiet hno' [.asked i a b, .reported (.stanza i index e.text)] ?_ rfl ?_
      · simp [Event.Quiet]
      · exact List.append_assoc ..

/-- One stanza of a file. -/
theorem unwrapStanza_goes (hc : c.Lawful) (hans : Answers c oracle held) {files : List (AgeFile c)}
    (hothers : RejectsOthers identities held files) {file : AgeFile c} (hfile : file ∈ files)
    {piece : Piece c} (hpiece : piece ∈ file.pieces) (i index : Nat) (w : Unwrapping σ) :
    Goes i file.key (piece.Tried identities held) w
      (unwrapStanza c identities oracle i index (piece.stanza file.key) w) := by
  cases piece with
  | foreign stanza => exact unwrapStanza_foreign hans hothers hfile hpiece i index w
  | sealed recipient esk => exact unwrapStanza_sealed hc hans hothers hfile hpiece i index w

/-! ## All stanzas of all files -/

theorem unwrapStanzas_of_recovered {i : Nat} {w : Unwrapping σ}
    (h : (w.fileKeys.lookup i).isSome = true) (index : Nat) (stanzas : List Stanza) :
    unwrapStanzas c identities oracle i index stanzas w = w := by
  cases stanzas with
  | nil => rfl
  | cons stanza stanzas => rw [unwrapStanzas, if_pos h]

/-- The stanzas of a file. -/
theorem unwrapStanzas_goes (hc : c.Lawful) (hans : Answers c oracle held) {files : List (AgeFile c)}
    (hothers : RejectsOthers identities held files) {file : AgeFile c} (hfile : file ∈ files)
    (i : Nat) {pieces : List (Piece c)} (hsub : pieces ⊆ file.pieces) (index : Nat)
    {w : Unwrapping σ} (hnone : w.fileKeys.lookup i = none) :
    Goes i file.key (∃ piece ∈ pieces, piece.Tried identities held) w
      (unwrapStanzas c identities oracle i index (pieces.map (·.stanza file.key)) w) := by
  induction pieces generalizing index w with
  | nil => exact ⟨.inr ⟨by simp, rfl⟩, [], by simp, .inl (List.append_nil _).symm⟩
  | cons piece pieces ih =>
    have hstep := unwrapStanza_goes hc hans hothers hfile (hsub List.mem_cons_self) i index w
    rw [List.map_cons, unwrapStanzas, if_neg (by rw [hnone]; simp)]
    generalize unwrapStanza c identities oracle i index (piece.stanza file.key) w = w₁ at hstep ⊢
    obtain ⟨es, hes, hevents⟩ := hstep.events
    rcases hstep.fileKeys with ⟨htried, hkeys⟩ | ⟨hno, hkeys⟩
    · -- the file's key is there: the other stanzas are left alone
      have hsome : (w₁.fileKeys.lookup i).isSome = true := by
        rw [hkeys, List.lookup_cons_self]
        rfl
      have hany : ∃ p ∈ piece :: pieces, p.Tried identities held :=
        ⟨piece, List.mem_cons_self, htried⟩
      rw [unwrapStanzas_of_recovered hsome]
      exact ⟨.inl ⟨hany, hkeys⟩, es, hes, hevents.imp_right fun h => ⟨hany, h.2⟩⟩
    · have hevents₁ : w₁.events = w.events ++ es := hevents.resolve_right fun h => hno h.1
      have hrest := ih (fun p hp => hsub (List.mem_cons_of_mem _ hp)) (index + 1)
        (w := w₁) (by rw [hkeys]; exact hnone)
      have hiff : (∃ p ∈ piece :: pieces, p.Tried identities held) ↔
          ∃ p ∈ pieces, p.Tried identities held := by
        simp [hno]
      obtain ⟨es', hes', hevents'⟩ := hrest.events
      rw [hevents₁, List.append_assoc] at hevents'
      refine ⟨?_, es ++ es', ?_, ?_⟩
      · rw [hiff, ← hkeys]
        exact hrest.fileKeys
      · intro e he
        exact (List.mem_append.mp he).elim (hes e) (hes' e)
      · rw [hiff]
        exact hevents'

/-- What is known before a file: nothing has been done for it or for a later one. -/
structure Before (n : Nat) (w : Unwrapping σ) : Prop where
  fileKeys : ∀ i, n ≤ i → w.fileKeys.lookup i = none
  events : ∀ i a b, n ≤ i → .asked i a b ∉ w.events ∧ .recovered i ∉ w.events
  noneAsked : NoneAsked w.events

theorem Goes.before {n : Nat} {key : FileKey} {opens : Prop} {w w' : Unwrapping σ}
    (h : Goes n key opens w w') (hw : Before n w) : Before (n + 1) w' := by
  obtain ⟨es, hes, hevents⟩ := h.events
  have hrec : ∀ i, .recovered i ∉ es := fun i hi => hes _ hi
  have hask : ∀ i a b, n + 1 ≤ i → .asked i a b ∉ es := by
    intro i a b hi hmem
    have : i = n := hes _ hmem
    omega
  have hquiet : NoneAsked (w.events ++ es) := by
    refine List.pairwise_append.mpr ⟨hw.noneAsked, ?_, ?_⟩
    · refine List.pairwise_iff_forall_sublist.mpr ?_
      rintro e e' hsub file a b rfl
      exact absurd (hsub.subset List.mem_cons_self) (hrec file)
    · rintro e he e' he' file a b rfl rfl
      obtain rfl : file = n := hes _ he'
      exact (hw.events file a b (Nat.le_refl _)).2 he
  constructor
  · intro i hi
    rcases h.fileKeys with ⟨-, hkeys⟩ | ⟨-, hkeys⟩ <;> rw [hkeys]
    · rw [List.lookup_cons, beq_false_of_ne (by omega)]
      exact hw.fileKeys i (by omega)
    · exact hw.fileKeys i (by omega)
  · intro i a b hi
    obtain ⟨hno, hno'⟩ := hw.events i a b (by omega)
    rcases hevents with hevents | ⟨-, hevents⟩ <;> rw [hevents]
    · exact ⟨by simp [hno, hask i a b hi], by simp [hno', hrec i]⟩
    · refine ⟨by simp [hno, hask i a b hi], ?_⟩
      simp [hno', hrec i]
      omega
  · rcases hevents with hevents | ⟨-, hevents⟩ <;> rw [hevents]
    · exact hquiet
    · refine List.pairwise_append.mpr ⟨hquiet, List.pairwise_singleton .., ?_⟩
      rintro e - e' he' file a b - rfl
      cases List.mem_singleton.mp he'

/-- The files, from one of them on. -/
theorem unwrapFiles_spec (hc : c.Lawful) (hans : Answers c oracle held) {all : List (AgeFile c)}
    (hothers : RejectsOthers identities held all) {files : List (AgeFile c)} (hsub : files ⊆ all)
    {n : Nat} {w : Unwrapping σ} (hw : Before n w) :
    (∀ i key, (unwrapFiles c identities oracle n (files.map (·.stanzas)) w).fileKeys.lookup i = some key ↔
      w.fileKeys.lookup i = some key ∨ n ≤ i ∧ ∃ file, files[i - n]? = some file ∧ file.key = key ∧
        ∃ piece ∈ file.pieces, piece.Tried identities held) ∧
    NoneAsked (unwrapFiles c identities oracle n (files.map (·.stanzas)) w).events := by
  induction files generalizing n w with
  | nil => exact ⟨by simp [unwrapFiles], hw.noneAsked⟩
  | cons file files ih =>
    rw [List.map_cons, unwrapFiles]
    have hgoes : Goes n file.key (∃ piece ∈ file.pieces, piece.Tried identities held) w
        (unwrapStanzas c identities oracle n 0 file.stanzas w) :=
      unwrapStanzas_goes hc hans hothers (hsub List.mem_cons_self) n (List.Subset.refl _) 0
        (hw.fileKeys n (Nat.le_refl _))
    generalize unwrapStanzas c identities oracle n 0 file.stanzas w = w₁ at hgoes ⊢
    obtain ⟨hkeys, hnone⟩ := ih (fun f hf => hsub (List.mem_cons_of_mem _ hf)) (hgoes.before hw)
    refine ⟨fun i key => (hkeys i key).trans ?_, hnone⟩
    rcases Nat.lt_trichotomy i n with hlt | rfl | hlt
    · have hsame : w₁.fileKeys.lookup i = w.fileKeys.lookup i := by
        rcases hgoes.fileKeys with ⟨-, h⟩ | ⟨-, h⟩ <;> rw [h]
        rw [List.lookup_cons, beq_false_of_ne (by omega)]
      rw [hsame]
      constructor
      · rintro (h | ⟨h, -⟩)
        · exact .inl h
        · omega
      · rintro (h | ⟨h, -⟩)
        · exact .inl h
        · omega
    · rw [Nat.sub_self, hw.fileKeys i (Nat.le_refl _)]
      have hfirst : (file :: files)[0]? = some file := rfl
      rw [hfirst]
      rcases hgoes.fileKeys with ⟨htried, h⟩ | ⟨hno, h⟩ <;> rw [h]
      · rw [List.lookup_cons_self]
        constructor
        · rintro (heq | ⟨h, -⟩)
          · exact .inr ⟨Nat.le_refl _, file, rfl, Option.some.inj heq, htried⟩
          · omega
        · rintro (heq | ⟨-, file', heq, rfl, -⟩)
          · cases heq
          · cases heq
            exact .inl rfl
      · rw [hw.fileKeys i (Nat.le_refl _)]
        constructor
        · rintro (heq | ⟨h, -⟩)
          · cases heq
          · omega
        · rintro (heq | ⟨-, file', heq, rfl, h⟩)
          · cases heq
          · cases heq
            exact absurd h hno
    · have hsame : w₁.fileKeys.lookup i = w.fileKeys.lookup i := by
        rcases hgoes.fileKeys with ⟨-, h⟩ | ⟨-, h⟩ <;> rw [h]
        rw [List.lookup_cons, beq_false_of_ne (by omega)]
      have hindex : (file :: files)[i - n]? = files[i - (n + 1)]? := by
        rw [show i - n = i - (n + 1) + 1 by omega, List.getElem?_cons_succ]
      rw [hsame, hindex]
      have hle : n + 1 ≤ i ↔ n ≤ i := by omega
      rw [hle]

/-- Which file keys are returned: those of the files with a stanza that is tried with its own
recipient. -/
theorem lookup_unwrapFileKeys (hc : c.Lawful) (hans : Answers c oracle held) {files : List (AgeFile c)}
    (hothers : RejectsOthers identities held files) (s : σ) :
    (∀ i key, (unwrapFileKeys c identities (.ok oracle) (files.map (·.stanzas)) s).fileKeys.lookup i =
        some key ↔
      ∃ file, files[i]? = some file ∧ file.key = key ∧
        ∃ piece ∈ file.pieces, piece.Tried identities held) ∧
    NoneAsked (unwrapFileKeys c identities (.ok oracle) (files.map (·.stanzas)) s).events := by
  have hstart : Before 0 ({ oracle := s, fileKeys := [], events := [] } : Unwrapping σ) :=
    ⟨fun _ _ => rfl, fun _ _ _ _ => ⟨List.not_mem_nil, List.not_mem_nil⟩, .nil⟩
  cases hempty : identities.isEmpty with
  | true =>
    obtain rfl := List.isEmpty_iff.mp hempty
    refine ⟨fun i key => ⟨nofun, ?_⟩, .nil⟩
    rintro ⟨file, -, -, piece, -, recipient, esk, id, -, hfind, -⟩
    cases hfind
  | false =>
    obtain ⟨hkeys, hnone⟩ := unwrapFiles_spec hc hans hothers (List.Subset.refl files) hstart
    rw [unwrapFileKeys, hempty]
    refine ⟨fun i key => (hkeys i key).trans ?_, hnone⟩
    simp

/-- A stanza that is tried with its own recipient makes the file one that can be opened. -/
theorem Piece.Tried.openable {file : AgeFile c} {piece : Piece c} (h : piece.Tried identities held)
    (hmem : piece ∈ file.pieces) : Openable identities held file := by
  obtain ⟨recipient, esk, id, rfl, hfind, heq, hheld⟩ := h
  exact ⟨recipient, esk, hmem, ⟨id, List.mem_of_find?_eq_some hfind, heq⟩, hheld⟩

/-- The keys of exactly the files that can be opened are returned, if and only if each of these
files has a stanza whose recipient is the first identity with its tag. -/
theorem unwraps_iff (hc : c.Lawful) (hans : Answers c oracle held) {files : List (AgeFile c)}
    (hothers : RejectsOthers identities held files) (s : σ) :
    Unwraps identities held files
        (unwrapFileKeys c identities (.ok oracle) (files.map (·.stanzas)) s) ↔
      ∀ file ∈ files, Openable identities held file →
        ∃ piece ∈ file.pieces, piece.Tried identities held := by
  obtain ⟨hkeys, hnone⟩ := lookup_unwrapFileKeys hc hans hothers s
  constructor
  · intro h file hfile hopen
    obtain ⟨i, hi⟩ := List.getElem?_of_mem hfile
    have hlookup := (h.returned i file.key).mpr ⟨file, hi, rfl, hopen⟩
    obtain ⟨file', hi', -, htried⟩ := (hkeys i file.key).mp hlookup
    obtain rfl := Option.some.inj (hi.symm.trans hi')
    exact htried
  · intro h
    refine ⟨fun i key => (hkeys i key).trans ?_, hnone⟩
    constructor
    · rintro ⟨file, hi, hkey, piece, hmem, htried⟩
      exact ⟨file, hi, hkey, htried.openable hmem⟩
    · rintro ⟨file, hi, hkey, hopen⟩
      exact ⟨file, hi, hkey, h file (List.mem_of_getElem? hi) hopen⟩

end

/-! ## Two identities with one tag -/

/-- Points and scalars of one byte. -/
def samplePoint (compress : Bool) (p : UInt8) : Bytes :=
  if compress then 2 :: List.replicate 31 0 ++ [p] else 4 :: List.replicate 63 0 ++ [p]

def sampleAeadTag (key : Bytes) : Bytes := (key ++ List.replicate 16 0).take 16

/-- Crates whose hash is a given function of the point. -/
def sampleCrates (hash : UInt8 → UInt8) : Crates UInt8 UInt8 where
  sha256 bytes := List.replicate 32 (hash (bytes.getLastD 0))
  fromSec1Bytes bytes :=
    let p := bytes.getLastD 0
    if bytes = samplePoint true p ∨ bytes = samplePoint false p then some p else none
  toEncodedPoint := samplePoint
  publicKey sk := sk
  diffieHellman sk p := List.replicate 31 0 ++ [sk * p]
  hkdf salt _ ikm := [(salt.take 33).getLastD 0, salt.getLastD 0, ikm.getLastD 0]
  aeadEncrypt key p := p ++ sampleAeadTag key
  aeadDecrypt key size ct :=
    if h : (ct.take size).length = size ∧ ct.drop size = sampleAeadTag key then
      some ⟨ct.take size, h.1⟩
    else none
  base64Encode bytes := String.ofList (bytes.map asciiChar)
  base64Decode s := some (s.toList.map fun ch => UInt8.ofNat ch.toNat)

theorem getLastD_samplePoint (compress : Bool) (p : UInt8) :
    (samplePoint compress p).getLastD 0 = p := by
  cases compress <;> simp [samplePoint]

theorem sampleCrates_lawful (hash : UInt8 → UInt8) : (sampleCrates hash).Lawful where
  length_sha256 _ := List.length_replicate ..
  length_compressed _ := rfl
  head_compressed _ := .inl rfl
  fromSec1Bytes_toEncodedPoint compress p := by
    dsimp only [sampleCrates]
    rw [getLastD_samplePoint]
    cases compress <;> simp
  diffieHellman_comm a b := by
    dsimp only [sampleCrates]
    rw [UInt8.mul_comm]
  length_aeadEncrypt key p := by
    simp [sampleCrates, sampleAeadTag]
  aeadDecrypt_aeadEncrypt key p := by
    simp [sampleCrates]
  base64Decode_base64Encode bytes := by
    dsimp only [sampleCrates]
    rw [String.toList_ofList, List.map_map]
    refine congrArg some ((List.map_congr_left fun b _ => ?_).trans (List.map_id bytes))
    dsimp only [Function.comp]
    rw [toNat_asciiChar, UInt8.ofNat_toNat]
    rfl

/-- The key of a point. -/
def sampleKey (hash : UInt8 → UInt8) (p : UInt8) : CompressedKey (sampleCrates hash) where
  compressed := samplePoint true p
  length_eq := (sampleCrates_lawful hash).length_compressed p
  valid := validateCompressed_toEncodedPoint (sampleCrates_lawful hash) p

/-- The bytes of a key are those of its last byte. -/
theorem CompressedKey.compressed_sample {hash : UInt8 → UInt8} (key : CompressedKey (sampleCrates hash)) :
    key.compressed = samplePoint true (key.compressed.getLastD 0) := by
  have hvalid := key.valid
  simp only [validateCompressed, Bool.and_eq_true] at hvalid
  have hpoint := hvalid.2
  dsimp only [sampleCrates] at hpoint
  split at hpoint
  · rename_i h
    refine h.resolve_right fun hlong => ?_
    have hlength := key.length_eq
    rw [hlong] at hlength
    simp [samplePoint, compressedBytes] at hlength
  · cases hpoint

/-- The body of a stanza that is read is the sealed file key. -/
theorem RecipientLine.body_fromStanza {c : Crates Scalar Point} {stanza : Stanza}
    {line : RecipientLine} (h : RecipientLine.fromStanza c stanza = some (.ok line)) :
    line.encryptedFileKey = stanza.body := by
  rw [RecipientLine.fromStanza] at h
  split at h
  · cases h
  · have h := Option.some.inj h
    split at h
    · rename_i hbody
      split at h
      · cases (Option.ite_none_right_eq_some.mp hbody).2
        cases h
        rfl
      · cases h
    · cases h

/-- The salt ends with the last byte of the recipient's key. -/
theorem getLastD_salt {hash : UInt8 → UInt8} (epk : Bytes) (key : CompressedKey (sampleCrates hash)) :
    (salt epk key.compressed).getLastD 0 = key.compressed.getLastD 0 := by
  rw [key.compressed_sample, salt, getLastD_samplePoint]
  simp [samplePoint]

/-- The tag of a sealed file key tells the recipient. -/
theorem sampleCrates_rejectsOthers {hash : UInt8 → UInt8}
    {identities : List (Identity (sampleCrates hash))} (held : UInt8 → Option UInt8)
    (hids : ∀ id ∈ identities, id.compressed.getLastD 0 ≠ 0)
    {files : List (AgeFile (sampleCrates hash))}
    (hforeign : ∀ file ∈ files, ∀ stanza, .foreign stanza ∈ file.pieces →
      stanza.body = List.replicate encryptedFileKeyBytes 0) :
    RejectsOthers identities held files := by
  constructor
  · intro file _ recipient esk _ id _ hne sk _
    have hlast : id.compressed.getLastD 0 ≠ recipient.compressed.getLastD 0 := by
      intro h
      rw [id.compressed_sample, recipient.compressed_sample, h] at hne
      exact hne rfl
    dsimp only [sampleCrates, wrapFileKey, encKey]
    rw [dif_neg]
    rintro ⟨-, h⟩
    rw [getLastD_salt, getLastD_salt, List.drop_append_of_le_length (Nat.le_of_eq file.key.2.symm),
      List.drop_eq_nil_of_le (Nat.le_of_eq file.key.2), List.nil_append] at h
    have htag : recipient.compressed.getLastD 0 = id.compressed.getLastD 0 := by
      simpa [sampleAeadTag] using congrArg (fun bytes => bytes.getD 1 0) h
    exact hlast htag.symm
  · intro file hfile stanza hmem line hread id hid sk _ q _
    have hbody := (RecipientLine.body_fromStanza hread).trans (hforeign file hfile stanza hmem)
    dsimp only [sampleCrates, encKey]
    rw [dif_neg]
    rintro ⟨-, h⟩
    rw [getLastD_salt, hbody] at h
    have hzero : 0 = id.compressed.getLastD 0 := by
      simpa [sampleAeadTag, encryptedFileKeyBytes, fileKeyBytes] using
        congrArg (fun bytes => bytes.getD 1 0) h
    exact hids id hid hzero.symm

/-- An agent with the key 7. -/
def sampleAgent : EcdhOracle Unit where
  ecdh _ selfBlob partnerBlob :=
    if selfBlob = ecPointToSshPubkeyBlob .nistP256 (samplePoint false 7) then
      (.ok (List.replicate 31 0 ++ [7 * partnerBlob.getLastD 0]), ())
    else (.error .noKey, ())

def sampleHeld (p : UInt8) : Option UInt8 := if p = 7 then some 7 else none

theorem getLastD_sampleBlob (p : UInt8) :
    (ecPointToSshPubkeyBlob .nistP256 (samplePoint false p)).getLastD 0 = p := by
  simp [ecPointToSshPubkeyBlob, putString, putRaw, samplePoint]

theorem sampleAgent_answers (hash : UInt8 → UInt8) :
    Answers (sampleCrates hash) sampleAgent sampleHeld := by
  intro s p q
  by_cases hp : p = 7
  · subst hp
    rw [sampleHeld, if_pos rfl]
    dsimp only [sampleCrates, sampleAgent]
    rw [if_pos rfl, getLastD_sampleBlob]
    exact ⟨rfl, rfl⟩
  · rw [sampleHeld, if_neg hp]
    dsimp only [sampleCrates, sampleAgent]
    rw [if_neg]
    · exact ⟨_, rfl⟩
    · intro h
      have hlast := congrArg (fun bytes => bytes.getLastD 0) h
      rw [getLastD_sampleBlob, getLastD_sampleBlob] at hlast
      exact hp hlast

/-- A file that is sealed for the keys of some points. -/
def sampleFile (hash : UInt8 → UInt8) (points : List UInt8) : AgeFile (sampleCrates hash) where
  key := ⟨List.replicate fileKeyBytes 0x5A, List.length_replicate ..⟩
  pieces := points.map fun p => .sealed (sampleKey hash p) 3

/-- A stanza with the tag of the key 7 that was sealed for nobody. -/
def sampleForeign : Stanza :=
  RecipientLine.toStanza (sampleCrates id)
    { tag := staticTag (sampleCrates id) (samplePoint true 7)
      epkCompressed := samplePoint true 3
      encryptedFileKey := List.replicate encryptedFileKeyBytes 0 }

/-- A file with the foreign stanza before those for 5 and 7. -/
def sampleMixed : AgeFile (sampleCrates id) :=
  { sampleFile id [5, 7] with pieces := .foreign sampleForeign :: (sampleFile id [5, 7]).pieces }

/-- With different tags every file with a stanza for the agent's key is opened, also after
stanzas that the agent cannot open. -/
theorem unwraps_differentTags :
    Unwraps [sampleKey id 5, sampleKey id 7] sampleHeld [sampleMixed, sampleFile id [5]]
      (unwrapFileKeys (sampleCrates id) [sampleKey id 5, sampleKey id 7] (.ok sampleAgent)
        ([sampleMixed, sampleFile id [5]].map (·.stanzas)) ()) := by
  have hforeign : ∀ file ∈ [sampleMixed, sampleFile id [5]], ∀ stanza,
      .foreign stanza ∈ file.pieces → stanza.body = List.replicate encryptedFileKeyBytes 0 := by
    simp [sampleMixed, sampleFile, sampleForeign, RecipientLine.toStanza]
  refine (unwraps_iff (sampleCrates_lawful id) (sampleAgent_answers id)
    (sampleCrates_rejectsOthers sampleHeld (by decide) hforeign) ()).mpr ?_
  intro file hfile hopen
  rcases List.mem_cons.mp hfile with rfl | hfile
  · refine ⟨.sealed (sampleKey id 7) 3, by simp [sampleMixed, sampleFile], ?_⟩
    exact ⟨sampleKey id 7, 3, sampleKey id 7, rfl, rfl, rfl, rfl⟩
  · obtain rfl := List.mem_singleton.mp hfile
    obtain ⟨recipient, esk, hmem, -, hheld⟩ := hopen
    cases List.mem_singleton.mp hmem
    cases hheld

/-- With one tag for both identities the second one's stanza is tried with the first only. -/
theorem not_unwraps_oneTag :
    Answers (sampleCrates fun _ => 0) sampleAgent sampleHeld ∧
      RejectsOthers [sampleKey (fun _ => 0) 5, sampleKey (fun _ => 0) 7] sampleHeld
        [sampleFile (fun _ => 0) [7]] ∧
      ¬ Unwraps [sampleKey (fun _ => 0) 5, sampleKey (fun _ => 0) 7] sampleHeld
        [sampleFile (fun _ => 0) [7]]
        (unwrapFileKeys (sampleCrates fun _ => 0)
          [sampleKey (fun _ => 0) 5, sampleKey (fun _ => 0) 7] (.ok sampleAgent)
          ([sampleFile (fun _ => 0) [7]].map (·.stanzas)) ()) := by
  have hans := sampleAgent_answers fun _ => 0
  have hothers : RejectsOthers [sampleKey (fun _ => 0) 5, sampleKey (fun _ => 0) 7] sampleHeld
      [sampleFile (fun _ => 0) [7]] :=
    sampleCrates_rejectsOthers sampleHeld (by decide) (by simp [sampleFile])
  refine ⟨hans, hothers, fun h => ?_⟩
  have hopen : Openable [sampleKey (fun _ => 0) 5, sampleKey (fun _ => 0) 7] sampleHeld
      (sampleFile (fun _ => 0) [7]) :=
    ⟨sampleKey _ 7, 3, List.mem_singleton.mpr rfl, ⟨sampleKey _ 7, by simp, rfl⟩, rfl⟩
  have hlookup := (h.returned 0 (sampleFile (fun _ => 0) [7]).key).mpr ⟨_, rfl, rfl, hopen⟩
  obtain ⟨file, hfile, -, piece, hmem, recipient, esk, id, rfl, hfind, hcompressed, -⟩ :=
    ((lookup_unwrapFileKeys (sampleCrates_lawful _) hans hothers ()).1 0 _).mp hlookup
  cases hfile
  cases List.mem_singleton.mp hmem
  cases hfind
  exact absurd hcompressed (by decide +kernel)

end Piggy.Age
