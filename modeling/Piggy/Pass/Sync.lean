import Piggy.Box.RoundTrip
import Piggy.Ids.Diff
import Piggy.Pass.Add
import Piggy.Pass.Reencrypt

/-!
# Syncing recipients

A declared file is copied over the live one and rendered there, and the eboxes below are
re-encrypted. When the two files compare equal before, nothing is done. The live file was
rendered and the declared one was not, so a second run stops there unless the declared file
spells a key bare; then it walks again, and finds every ebox current.
-/

namespace Piggy.Pass

open Piggy.Core Piggy.Markl Piggy.Ids Piggy.Box

/-- How syncing ends. -/
inductive SyncExit where
  | invalidFile
  | current
  | canonicalizeFailed
  | walked (ended : WalkEnd)
  deriving DecidableEq

/-- The exit code is zero. -/
def SyncExit.succeeds : SyncExit → Bool
  | .current => true
  | .walked ended => ended = .clean
  | _ => false

/-- What syncing leaves: the live file, how it ended and the eboxes. -/
structure Synced where
  live : List Char
  exit : SyncExit
  entries : List Entry
  deriving DecidableEq

/-- The diff command on two files succeeds. -/
def comparesEqual (current desired : List Char) : Bool :=
  match Ids.parse current, Ids.parse desired with
  | .ok current, .ok desired => (diff current desired).isEmpty
  | _, _ => false

/-- A later run leaves the live file and every ebox as they were. -/
def ChangesNothing (before after : Synced) : Prop :=
  after.live = before.live ∧ after.entries = before.entries

section

variable {Scalar Point Rng σ τ : Type} (ssl : OpenSsl Scalar Point Rng)

/-- Syncs the live file with a declared one. -/
def sync (w : Walker σ τ Rng) (live file : List Char) (entries : List Entry) (s : σ) (t : τ) :
    Synced :=
  match Ids.parse file with
  | .error _ => ⟨live, .invalidFile, entries⟩
  | .ok _ =>
    if comparesEqual live file then ⟨live, .current, entries⟩
    else
      match canonicalize file with
      | none => ⟨file, .canonicalizeFailed, entries⟩
      | some text =>
        let (after, ended) := reencrypt ssl w text 0 entries s t
        ⟨text, .walked ended, after⟩

variable {ssl}

/-- Syncing when the files compare equal. -/
theorem sync_of_equal {w : Walker σ τ Rng} {live file : List Char} {declared : List Recipient}
    (hfile : Ids.parse file = .ok declared) (h : comparesEqual live file = true)
    (entries : List Entry) (s : σ) (t : τ) :
    sync ssl w live file entries s t = ⟨live, .current, entries⟩ := by
  rw [sync, hfile]
  dsimp only
  rw [if_pos h]

/-- Syncing when they do not. -/
theorem sync_of_different {w : Walker σ τ Rng} {live file : List Char} {declared : List Recipient}
    (hfile : Ids.parse file = .ok declared) (h : comparesEqual live file = false)
    (entries : List Entry) (s : σ) (t : τ) : sync ssl w live file entries s t =
      ⟨render declared, .walked (reencrypt ssl w (render declared) 0 entries s t).2,
        (reencrypt ssl w (render declared) 0 entries s t).1⟩ := by
  rw [sync, hfile]
  dsimp only
  rw [h, if_neg nofun, canonicalize, hfile]

/-- After a sync that succeeded, a second one of the same file changes nothing. -/
theorem sync_twice (hssl : ssl.Lawful) {w : Walker σ τ Rng} {live file : List Char}
    {entries : List Entry} {s : σ} {t : τ}
    (hend : (sync ssl w live file entries s t).exit.succeeds = true)
    (hcount : ∀ e ∈ entries, Countable (e.own.getD (sync ssl w live file entries s t).live))
    {σ' τ' : Type} (w' : Walker σ' τ' Rng) (s' : σ') (t' : τ') :
    ChangesNothing (sync ssl w live file entries s t)
      (sync ssl w' (sync ssl w live file entries s t).live file
        (sync ssl w live file entries s t).entries s' t') := by
  rcases hfile : Ids.parse file with e | declared
  · rw [sync, hfile] at hend
    cases hend
  cases hequal : comparesEqual live file with
  | true =>
    rw [sync_of_equal hfile hequal]
    dsimp only
    rw [sync_of_equal hfile hequal]
    exact ⟨rfl, rfl⟩
  | false =>
    rw [sync_of_different hfile hequal] at hend hcount ⊢
    have hcurrent := reencrypt_clean hssl hcount (of_decide_eq_true hend)
    dsimp only
    cases hagain : comparesEqual (render declared) file with
    | true =>
      rw [sync_of_equal hfile hagain]
      exact ⟨rfl, rfl⟩
    | false =>
      rw [sync_of_different hfile hagain]
      exact ⟨rfl, reencrypt_current hcurrent 0 s' t'⟩

/-- Rendering is stable after one round. A file compares equal to its rendered form exactly when
no recipient in it is bare. Files compare equal exactly when they list the same ids, which tells
whether they list the same keys unless these are only spelled in another way. A second sync of a
file, after one that succeeded, changes nothing. -/
theorem render_sync_settle (hssl : ssl.Lawful) :
    (∀ text rs, Ids.parse text = .ok rs → ∃ again, Ids.parse (render rs) = .ok again ∧
      render again = render rs ∧
      ((diff rs again).isEmpty = true ∧ (diff again rs).isEmpty = true ↔
        ∀ r ∈ rs, r.isBare = false)) ∧
    (∀ a b, ((diff a b).isEmpty = true ↔
        ∀ id, id ∈ a.map Recipient.id ↔ id ∈ b.map Recipient.id) ∧
      (((diff a b).isEmpty = true ↔ SameKeys a b) ↔ (SameKeys a b → SameSpelling a b))) ∧
    ∀ (w : Walker σ τ Rng) (live file : List Char) (entries : List Entry) (s : σ) (t : τ),
      (sync ssl w live file entries s t).exit.succeeds = true →
      (∀ e ∈ entries, Countable (e.own.getD (sync ssl w live file entries s t).live)) →
      ∀ (σ' τ' : Type) (w' : Walker σ' τ' Rng) (s' : σ') (t' : τ'),
        ChangesNothing (sync ssl w live file entries s t)
          (sync ssl w' (sync ssl w live file entries s t).live file
            (sync ssl w live file entries s t).entries s' t') := by
  refine ⟨?_, fun a b => ⟨diff_isEmpty, diff_isEmpty_sameKeys⟩, ?_⟩
  · intro text rs hparse
    refine ⟨_, parse_render_parse hparse, render_canonical rs, ?_⟩
    rw [diff_isEmpty_comm (a := rs.map Recipient.canonical), and_self, diff_canonical]
  · intro w live file entries s t hend hcount σ' τ' w' s' t'
    exact sync_twice hssl hend hcount w' s' t'

end

/-! ## Recipients that are spelled bare -/

/-- A file that lists the key 6 of the sample library, without its purpose. -/
def sampleBareIds : List Char :=
  ("pivy_ecdh_p256_pub-" ++
    "qgrqqqqqqqqqqqqqqqqqqqqqqqqqqqqqqqqqqqqqqqqqqqqqqqqqqp72846\n").toList

/-- A stream sealed to the key 5 of the sample library. -/
def sampleSealed : Except Fault Bytes :=
  cmdStreamEncrypt OpenSsl.sample sampleDealer sampleTemplate (strBytes "hi") 0

/-- A walk with the sample card, in which the system does what it is asked. -/
def sampleWalker : Walker Unit Unit Nat where
  agent := none
  card := some sampleCard
  dealer := sampleDealer
  turns _ := { reads := true, replaces := true, rng := 0 }

/-- An ebox that is sealed to the key 5. -/
def sampleEntry : Entry := ⟨sampleSealed.toOption.getD [], none⟩

/-- The sync of a file with the ebox. -/
def sampleSync (live file : List Char) : Synced :=
  sync OpenSsl.sample sampleWalker live file [sampleEntry] () ()

/-- The sync succeeds and seals the ebox again, and its live file, which has one recipient, does
not compare equal to the declared one. -/
theorem sampleSync_reencrypts :
    (sampleSync sampleIds sampleBareIds).exit.succeeds = true ∧
      comparesEqual (sampleSync sampleIds sampleBareIds).live sampleBareIds = false ∧
      (sampleSync sampleIds sampleBareIds).entries ≠ [sampleEntry] ∧
      (fun rs => (encryptionRecipients rs).length) <$>
        Ids.parse (sampleSync sampleIds sampleBareIds).live = .ok 1 :=
  of_toList_append (p := fun live => (sampleSync live sampleBareIds).exit.succeeds = true ∧
      comparesEqual (sampleSync live sampleBareIds).live sampleBareIds = false ∧
      (sampleSync live sampleBareIds).entries ≠ [sampleEntry] ∧
      (fun rs => (encryptionRecipients rs).length) <$>
        Ids.parse (sampleSync live sampleBareIds).live = .ok 1)
    (of_toList_append (p := fun file => (sampleSync _ file).exit.succeeds = true ∧
      comparesEqual (sampleSync _ file).live file = false ∧
      (sampleSync _ file).entries ≠ [sampleEntry] ∧
      (fun rs => (encryptionRecipients rs).length) <$> Ids.parse (sampleSync _ file).live = .ok 1)
      (by decide +kernel))

/-- The second sync of the sample changes nothing. -/
theorem render_sync_settle_sample :
    (sampleSync sampleIds sampleBareIds).exit.succeeds = true ∧
      comparesEqual (sampleSync sampleIds sampleBareIds).live sampleBareIds = false ∧
      (sampleSync sampleIds sampleBareIds).entries ≠ [sampleEntry] ∧
      ChangesNothing (sampleSync sampleIds sampleBareIds)
        (sync OpenSsl.sample sampleWalker (sampleSync sampleIds sampleBareIds).live sampleBareIds
          (sampleSync sampleIds sampleBareIds).entries () ()) := by
  obtain ⟨hend, hdiffers, hsealed, hone⟩ := sampleSync_reencrypts
  refine ⟨hend, hdiffers, hsealed, ?_⟩
  refine (render_sync_settle OpenSsl.sample_lawful).2.2 sampleWalker _ _ _ _ _ hend ?_ _ _ _ _ _
  intro e he
  rw [List.mem_singleton.mp he]
  intro rs hrs
  change Ids.parse (sampleSync sampleIds sampleBareIds).live = .ok rs at hrs
  rw [hrs] at hone
  exact Nat.le_trans (Nat.le_of_eq (Except.ok.inj hone)) (by decide)

/-- An age recipient without its purpose. -/
def sampleBareAge : List Char :=
  ("age_x25519_pub-" ++
    "qurswpc8qurswpc8qurswpc8qurswpc8qurswpc8qurswpc8qursq5urak\n").toList

theorem sampleBareAge_bare :
    List.map Recipient.isBare <$> Ids.parse sampleBareAge = .ok [true] :=
  of_toList_append (p := fun text => List.map Recipient.isBare <$> Ids.parse text = .ok [true])
    (by decide +kernel)

/-- A file with a bare recipient does not compare equal to its rendered form, which lists the
same keys. -/
theorem not_settled_bare :
    ∃ rs again, Ids.parse sampleBareAge = .ok rs ∧ Ids.parse (render rs) = .ok again ∧
      (diff rs again).isEmpty = false ∧ SameKeys rs again := by
  obtain ⟨rs, hparse, hbare⟩ := map_ok.mp sampleBareAge_bare
  refine ⟨rs, _, hparse, parse_render_parse hparse, ?_, ?_⟩
  · rw [Bool.eq_false_iff]
    intro hequal
    have hnone := diff_canonical.mp hequal
    have hall : ∀ b ∈ rs.map Recipient.isBare, b = false := List.forall_mem_map.mpr hnone
    rw [hbare] at hall
    cases hall true (List.mem_singleton_self _)
  · intro key
    have hkeys : (rs.map Recipient.canonical).map Recipient.key = rs.map Recipient.key := by
      rw [List.map_map]
      refine List.map_congr_left fun r _ => ?_
      obtain ⟨-, hformat, hdata⟩ := canonicalizeForRender_spec r.shape
      exact Prod.ext hformat hdata
    rw [hkeys]

end Piggy.Pass
