import Piggy.Core.Lists
import Piggy.Pigpen.Document

/-!
# Marks in the wire form of an id

A recipient line is cut at the first mark that stands in it. A quoted purpose may hold
a mark, and the writer does not escape it; where it does, the line is cut inside the
purpose and what stands in front of the mark is no id.
-/

namespace Piggy.Pigpen

open Piggy.Core
open Piggy.Markl
open Piggy.Box (Bytes)

/-- The two marks a recipient line is cut at. -/
def IsMark (m : List Char) : Prop := m = commentMark ∨ m = wrapMark

theorem IsMark.head {m : List Char} (h : IsMark m) : ∃ tail, m = ' ' :: tail := by
  rcases h with rfl | rfl
  · exact ⟨_, rfl⟩
  · exact ⟨_, rfl⟩

theorem IsMark.ne_nil {m : List Char} (h : IsMark m) : m ≠ [] := by
  rcases h with rfl | rfl <;> exact List.cons_ne_nil _ _

/-- The characters that marks are made of. -/
theorem IsMark.chars {m : List Char} (h : IsMark m) {c : Char} (hc : c ∈ m) :
    c = ' ' ∨ c = '#' ∨ c = '<' := by
  rcases h with rfl | rfl
  · simp only [commentMark, List.mem_cons, List.not_mem_nil, or_false] at hc
    tauto
  · simp only [wrapMark, List.mem_cons, List.not_mem_nil, or_false] at hc
    tauto

/-- A text of characters that no mark has is foreign to it. -/
theorem IsMark.disjoint {m text : List Char} (h : IsMark m)
    (ht : ∀ c ∈ text, c ≠ ' ' ∧ c ≠ '#' ∧ c ≠ '<') : m.Disjoint text := by
  intro c hc hmem
  obtain ⟨h₁, h₂, h₃⟩ := ht c hmem
  rcases h.chars hc with rfl | rfl | rfl
  · exact h₁ rfl
  · exact h₂ rfl
  · exact h₃ rfl

/-- No mark has a wire character in it. -/
theorem isWireChar_unmarked {c : Char} (h : Blech32.isWireChar c = true) :
    c ≠ ' ' ∧ c ≠ '#' ∧ c ≠ '<' := by
  refine ⟨?_, ?_, ?_⟩
  all_goals
    rintro rfl
    revert h
    decide

/-- Escaping a purpose leaves the characters of a mark alone. -/
theorem IsMark.spares {m : List Char} (h : IsMark m) {escape : Char → List Char}
    (hescape : ∀ c, EscapesTo c (escape c)) : Spares m escape := by
  intro c
  rcases hescape c with ⟨hc, -⟩ | ⟨letter, hletter, hc, hun⟩
  · exact Or.inl hc
  · have hall : escapeLetters.all (fun l => decide ((l ≠ ' ' ∧ l ≠ '#' ∧ l ≠ '<') ∧
        unescape l ≠ ' ' ∧ unescape l ≠ '#' ∧ unescape l ≠ '<')) = true := rfl
    obtain ⟨hl, hu⟩ := of_decide_eq_true (List.all_eq_true.mp hall letter hletter)
    rw [hun] at hu
    refine Or.inr ⟨?_, by rw [hc]; exact List.cons_ne_nil _ _, ?_⟩
    · intro hmem
      have hdis : m.Disjoint [c] := h.disjoint (by simpa using hu)
      exact hdis hmem List.mem_cons_self
    · rw [hc]
      refine h.disjoint ?_
      intro x hx
      rcases List.mem_cons.mp hx with rfl | hx
      · decide
      · obtain rfl := List.mem_singleton.mp hx
        exact hl

/-- A mark stands in the spelling of a purpose exactly when it stands in the purpose. -/
theorem IsMark.infix_spellPurpose {m : List Char} (h : IsMark m) (purpose : List Char) :
    m <:+: spellPurpose purpose ↔ m <:+: purpose := by
  rw [spellPurpose]
  split
  · rfl
  · obtain ⟨escape, hescape, hquote⟩ := quotePurpose_eq purpose
    have hq : m.Disjoint ['"'] := h.disjoint (by simp)
    rw [hquote, ← List.singleton_append, infix_foreign_append h.ne_nil hq,
      infix_append_foreign h.ne_nil hq, infix_flatMap_iff h.ne_nil (h.spares hescape)]

/-- A mark stands in the wire form of an id exactly when it stands in its purpose. -/
theorem IsMark.infix_toWire {m : List Char} (h : IsMark m) (id : Id) :
    m <:+: id.toWire ↔ ∃ p ∈ id.purpose, m <:+: p.asStr.toList := by
  have hbody : m.Disjoint id.body :=
    h.disjoint fun c hc => isWireChar_unmarked (id.parseBody_body.2 c hc)
  cases hp : id.purpose with
  | none =>
    have hwire : id.toWire = [] ++ id.body := by rw [Id.toWire, hp, List.nil_append]
    rw [hwire, infix_append_foreign h.ne_nil hbody]
    simp [h.ne_nil]
  | some p =>
    have hwire : id.toWire = spellPurpose p.asStr.toList ++ ('@' :: id.body) := by
      rw [Id.toWire, hp]
    have hat : m.Disjoint ('@' :: id.body) := by
      refine h.disjoint ?_
      intro c hc
      rcases List.mem_cons.mp hc with rfl | hc
      · decide
      · exact isWireChar_unmarked (id.parseBody_body.2 c hc)
    rw [hwire, infix_append_foreign h.ne_nil hat, h.infix_spellPurpose]
    simp

/-- The wire form ends in a character of the payload. -/
theorem getLast?_toWire (id : Id) : ∀ c ∈ id.toWire.getLast?, Blech32.isWireChar c = true := by
  intro c hc
  have hbody : ∀ c ∈ id.body.getLast?, Blech32.isWireChar c = true :=
    fun c hc => id.parseBody_body.2 c (List.mem_of_getLast? hc)
  have hne : id.body ≠ [] := by
    intro hn
    have hparse := id.parseBody_body.1
    rw [hn] at hparse
    cases hparse
  cases hp : id.purpose with
  | none =>
    rw [Id.toWire, hp] at hc
    exact hbody c hc
  | some p =>
    rw [Id.toWire, hp, List.getLast?_append_of_ne_nil _ (List.cons_ne_nil _ _)] at hc
    obtain ⟨b, bs, hb⟩ := List.exists_cons_of_ne_nil hne
    rw [hb, List.getLast?_cons_cons, ← hb] at hc
    exact hbody c hc

/-- A text whose quote is not closed is no id. -/
theorem parse_unclosed {text : List Char} (h : scanQuoted '"' text = none) (id : Id) :
    Id.parse ('"' :: text) ≠ .ok id := by
  intro hparse
  have hsplit : splitPurposeSlot ('"' :: text) = (some ('"' :: text), []) := by
    rw [splitPurposeSlot, if_neg (by simp), h]
  rw [Id.parse, hsplit] at hparse
  simp only [bind_ok] at hparse
  obtain ⟨_, -, _, hbody, -⟩ := hparse
  cases hbody

/-- What stands in front of a mark in the wire form of an id is no id. -/
theorem IsMark.parse_before {m : List Char} (h : IsMark m) {id : Id} {before rest : List Char}
    (hwire : id.toWire = before ++ (m ++ rest)) (id' : Id) : Id.parse (trim before) ≠ .ok id' := by
  obtain ⟨p, hp, hmark⟩ : ∃ p ∈ id.purpose, m <:+: p.asStr.toList := by
    rw [← h.infix_toWire, hwire]
    exact ⟨before, rest, List.append_assoc ..⟩
  obtain ⟨tail, rfl⟩ := h.head
  -- The purpose has a blank in it, so it is written in quotes.
  have hnot : ¬ purposeIsBareExpressible p.asStr.toList = true := by
    intro hbare
    obtain ⟨-, hall⟩ : p.asStr.toList.isEmpty = false ∧ ∀ c ∈ p.asStr.toList, isBareChar c = true := by
      simpa [purposeIsBareExpressible] using hbare
    exact absurd (hall ' ' (hmark.subset List.mem_cons_self)) (by decide)
  obtain ⟨escape, hescape, hquote⟩ := quotePurpose_eq p.asStr.toList
  have hform : id.toWire = ('"' :: p.asStr.toList.flatMap escape) ++ ('"' :: '@' :: id.body) := by
    simp only [Id.toWire, Option.mem_def.mp hp, spellPurpose, if_neg hnot, hquote]
    simp
  rw [hform] at hwire
  have hpre : before <+: '"' :: p.asStr.toList.flatMap escape := by
    rcases List.append_eq_append_iff.mp hwire with ⟨a, rfl, ha⟩ | ⟨a, ha, -⟩
    · -- the mark would stand behind the closing quote
      have hmem : ' ' ∈ '"' :: '@' :: id.body := by
        rw [ha]
        simp
      rcases List.mem_cons.mp hmem with hc | hmem
      · exact absurd hc (by decide)
      · rcases List.mem_cons.mp hmem with hc | hmem
        · exact absurd hc (by decide)
        · exact absurd rfl (isWireChar_unmarked (id.parseBody_body.2 _ hmem)).1
    · exact ⟨a, ha.symm⟩
  cases before with
  | nil =>
    have hhead := congrArg List.head? hwire
    simp at hhead
  | cons c cs =>
    obtain ⟨rfl, hcs⟩ := List.cons_prefix_cons.mp hpre
    have hblank : ¬ IsBlank ('"' :: cs) := by
      intro hb
      exact absurd (hb '"' List.mem_cons_self) (by decide)
    have hstart : trimStart ('"' :: cs) = '"' :: cs :=
      trimStart_of_head (by rintro c ⟨⟩; decide)
    have htrim : trim ('"' :: cs) <+: '"' :: cs := by
      have hr := List.rdropWhile_prefix isWhitespace (trimStart ('"' :: cs))
      rwa [hstart] at hr
    obtain ⟨d, ds, hd⟩ := List.exists_cons_of_ne_nil fun hn => hblank (trim_eq_nil_iff.mp hn)
    rw [hd] at htrim ⊢
    obtain ⟨rfl, hds⟩ := List.cons_prefix_cons.mp htrim
    exact parse_unclosed (scanQuoted_start hescape (hds.trans hcs)) id'

end Piggy.Pigpen
