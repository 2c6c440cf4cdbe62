import StyleExpand.Proofs.Reference
import StyleExpand.Proofs.Scope

/-!
# Texts cut at their references

A text is plain characters and references in turn, and it can be cut in only one way so that each
reference is the leftmost one behind the reference before it. Substitution replaces some of these
references and leaves all else as it is.

* `Reference.OccursAt` : a reference is written at a place of a text, with all of its name;
* `Reference.read?_eq_some_iff` : what is read at the start of a text is what occurs there;
* `Decomposition`, `Decomposition.Leftmost` : a text in parts, cut as it should be;
* `Decomposition.exists_unique_leftmost` : there is one for each text, and only one;
* `substitute_exact` : what substitution makes of the parts.
-/

namespace StyleExpand

/-! ## Occurrences -/

namespace Reference

variable {r : Reference} {c : Char} {cs name rest : List Char}

/-- A text is a reference and what follows it, and nothing that follows could belong to the name. After
the closing character of the other two forms, nothing can. -/
def Heads (r : Reference) (cs rest : List Char) : Prop :=
  cs = r.write ++ rest ∧ isName r.name = true ∧
    (r.form = .bare → ∀ c ∈ rest.head?, Text.isNameChar c = false)

/-- A reference stands in a text behind its first `i` characters. -/
def OccursAt (r : Reference) (cs : List Char) (i : Nat) : Prop := ∃ rest, r.Heads (cs.drop i) rest

theorem stop_of_name? (h : name? cs = some (name, rest)) :
    ∀ c ∈ rest.head?, Text.isNameChar c = false := by
  cases cs with
  | nil => simp [name?] at h
  | cons c cs =>
    rw [name?] at h
    split at h
    · obtain ⟨rfl, rfl⟩ := Prod.mk.inj (Option.some.inj h)
      intro d hd
      have hstop := List.head?_dropWhile_not Text.isNameChar cs
      rw [Option.mem_def.1 hd] at hstop
      exact hstop
    · cases h

theorem stop_of_read? (h : read? cs = some (r, rest)) (hform : r.form = .bare) :
    ∀ c ∈ rest.head?, Text.isNameChar c = false := by
  unfold read? at h
  split at h
  · rw [(closed?_append h).1] at hform
    cases hform
  · rw [(closed?_append h).1] at hform
    cases hform
  · obtain ⟨found, hfound, heq⟩ := Option.map_eq_some_iff.1 h
    obtain ⟨rfl, rfl⟩ := Prod.mk.inj heq
    exact stop_of_name? hfound
  · cases h

/-- A reference is read exactly where one stands. -/
theorem read?_eq_some_iff : read? cs = some (r, rest) ↔ r.Heads cs rest := by
  constructor
  · intro h
    exact ⟨(read?_append h).symm, isName_of_read? h, stop_of_read? h⟩
  · rintro ⟨rfl, hname, hstop⟩
    exact read?_write hname hstop

theorem getLast?_append_write (h : read? cs = some (r, rest)) (before : List Char) :
    (before ++ r.write).getLast? ≠ some '\\' := by
  intro hlast
  rw [List.getLast?_append] at hlast
  cases hwrite : r.write.getLast? with
  | none => exact r.write_ne_nil (List.getLast?_eq_none_iff.1 hwrite)
  | some c =>
    rw [hwrite, Option.some_or] at hlast
    rw [hlast] at hwrite
    exact backslash_notMem_write (isName_of_read? h) (List.mem_of_getLast? hwrite)

theorem occursAt_zero_iff : r.OccursAt cs 0 ↔ ∃ rest, read? cs = some (r, rest) :=
  exists_congr fun _ => read?_eq_some_iff.symm

theorem occursAt_succ_iff {i : Nat} : r.OccursAt (c :: cs) (i + 1) ↔ r.OccursAt cs i := Iff.rfl

end Reference

/-! ## Decompositions -/

/-- A text in parts: plain characters, or plain characters and a reference before another such text. -/
inductive Decomposition where
  | plain (cs : List Char)
  | cut (cs : List Char) (r : Reference) (rest : Decomposition)
  deriving DecidableEq

namespace Decomposition

variable {c : Char} {cs rest : List Char} {r : Reference} {d : Decomposition}

def text : Decomposition → List Char
  | plain cs => cs
  | cut cs r rest => cs ++ r.write ++ rest.text

/-- Each reference is the leftmost one of what follows the reference before it, and none is left in the
plain characters at the end. -/
def Leftmost : Decomposition → Prop
  | plain cs => ∀ (r : Reference) (i : Nat), ¬ r.OccursAt cs i
  | cut cs r rest =>
    r.OccursAt (cs ++ r.write ++ rest.text) cs.length ∧
      (∀ (r' : Reference) (i : Nat), i < cs.length → ¬ r'.OccursAt (cs ++ r.write ++ rest.text) i) ∧
      rest.Leftmost

theorem leftmost_plain :
    (plain cs).Leftmost ↔ ∀ (r : Reference) (i : Nat), ¬ r.OccursAt cs i := Iff.rfl

theorem leftmost_cut : (cut cs r d).Leftmost ↔
    r.OccursAt (cs ++ r.write ++ d.text) cs.length ∧
      (∀ (r' : Reference) (i : Nat), i < cs.length → ¬ r'.OccursAt (cs ++ r.write ++ d.text) i) ∧
      d.Leftmost := Iff.rfl

def push (c : Char) : Decomposition → Decomposition
  | plain cs => plain (c :: cs)
  | cut cs r rest => cut (c :: cs) r rest

@[simp] theorem text_push (c : Char) : ∀ d : Decomposition, (d.push c).text = c :: d.text
  | plain _ => rfl
  | cut _ _ _ => rfl

/-- No reference starts at the character, so all of them stay where they are. -/
theorem leftmost_push (h : Reference.read? (c :: d.text) = none) :
    (d.push c).Leftmost ↔ d.Leftmost := by
  have hzero : ∀ r : Reference, ¬ r.OccursAt (c :: d.text) 0 := by
    intro r hr
    obtain ⟨rest, hread⟩ := Reference.occursAt_zero_iff.1 hr
    rw [h] at hread
    cases hread
  cases d with
  | plain cs =>
    rw [push, leftmost_plain, leftmost_plain]
    constructor
    · intro hall r i hr
      exact hall r (i + 1) (Reference.occursAt_succ_iff.2 hr)
    · intro hall r i hr
      cases i with
      | zero => exact hzero r hr
      | succ i => exact hall r i (Reference.occursAt_succ_iff.1 hr)
  | cut cs r rest =>
    rw [push, leftmost_cut, leftmost_cut]
    refine and_congr Iff.rfl (and_congr_left fun _ => ?_)
    constructor
    · intro hall r' i hi hr
      exact hall r' (i + 1) (Nat.succ_lt_succ hi) (Reference.occursAt_succ_iff.2 hr)
    · intro hall r' i hi hr
      cases i with
      | zero => exact hzero r' hr
      | succ i => exact hall r' i (Nat.lt_of_succ_lt_succ hi) (Reference.occursAt_succ_iff.1 hr)

theorem leftmost_cut_nil (h : Reference.read? (r.write ++ d.text) = some (r, d.text)) :
    (cut [] r d).Leftmost ↔ d.Leftmost := by
  rw [leftmost_cut]
  constructor
  · rintro ⟨-, -, hd⟩
    exact hd
  · intro hd
    exact ⟨Reference.occursAt_zero_iff.2 ⟨_, h⟩, fun _ _ hi => absurd hi (Nat.not_lt_zero _), hd⟩

/-! ### Cutting from the front -/

theorem exists_push (h : Reference.read? (c :: cs) = none) (htext : d.text = c :: cs)
    (hd : d.Leftmost) : ∃ d' : Decomposition, d = d'.push c ∧ d'.text = cs ∧ d'.Leftmost := by
  have hpush : ∃ d' : Decomposition, d = d'.push c ∧ d'.text = cs := by
    cases d with
    | plain cs' =>
      obtain rfl : cs' = c :: cs := htext
      exact ⟨plain cs, rfl, rfl⟩
    | cut cs' r rest =>
      cases cs' with
      | nil =>
        rw [leftmost_cut, ← text, htext] at hd
        obtain ⟨rest', hread⟩ := Reference.occursAt_zero_iff.1 hd.1
        rw [h] at hread
        cases hread
      | cons c' cs' =>
        obtain ⟨rfl, htail⟩ := List.cons.inj htext
        exact ⟨cut cs' r rest, rfl, htail⟩
  obtain ⟨d', rfl, rfl⟩ := hpush
  exact ⟨d', rfl, rfl, (leftmost_push h).1 hd⟩

theorem exists_cut (h : Reference.read? (c :: cs) = some (r, rest)) (htext : d.text = c :: cs)
    (hd : d.Leftmost) : ∃ d' : Decomposition, d = cut [] r d' ∧ d'.text = rest ∧ d'.Leftmost := by
  have hzero : r.OccursAt d.text 0 := by
    rw [htext]
    exact Reference.occursAt_zero_iff.2 ⟨rest, h⟩
  cases d with
  | plain cs' => exact absurd hzero (leftmost_plain.1 hd r 0)
  | cut cs' r' d' =>
    rw [leftmost_cut, ← text] at hd
    obtain ⟨hfirst, hnone, hd'⟩ := hd
    cases cs' with
    | cons c' cs' => exact absurd hzero (hnone r 0 (Nat.zero_lt_succ _))
    | nil =>
      obtain ⟨rest', hread⟩ := Reference.occursAt_zero_iff.1 hfirst
      rw [htext, h] at hread
      obtain ⟨rfl, rfl⟩ := Prod.mk.inj (Option.some.inj hread)
      have hrest : r.write ++ d'.text = r.write ++ rest := by
        rw [Reference.read?_append h, ← htext]
        rfl
      exact ⟨d', rfl, List.append_cancel_left hrest, hd'⟩

theorem eq_plain_of_text_nil (htext : d.text = []) : d = plain [] := by
  cases d with
  | plain cs =>
    obtain rfl : cs = [] := htext
    rfl
  | cut cs r rest =>
    rw [text, List.append_eq_nil_iff, List.append_eq_nil_iff] at htext
    exact absurd htext.1.2 r.write_ne_nil

theorem leftmost_nil : (plain []).Leftmost := by
  rw [leftmost_plain]
  rintro r i ⟨rest, hwrite, -, -⟩
  rw [List.drop_nil] at hwrite
  exact r.write_ne_nil (List.append_eq_nil_iff.1 hwrite.symm).1

/-- Every text can be cut as it should be, and in one way only. -/
theorem exists_unique_leftmost (cs : List Char) :
    ∃ d : Decomposition, d.text = cs ∧ d.Leftmost ∧
      ∀ d' : Decomposition, d'.text = cs → d'.Leftmost → d' = d := by
  -- the text is read from the front as its segments are, and backslashes do not matter
  fun_induction segments false cs with
  | case1 => exact ⟨plain [], rfl, leftmost_nil, fun d' htext _ => eq_plain_of_text_nil htext⟩
  | case2 escaped c cs hread ih =>
    obtain ⟨d, rfl, hd, hunique⟩ := ih
    refine ⟨d.push c, text_push c d, (leftmost_push hread).2 hd, ?_⟩
    intro d' htext hd'
    obtain ⟨d'', rfl, htext', hd''⟩ := exists_push hread htext hd'
    rw [hunique d'' htext' hd'']
  | case3 escaped c cs r rest hread hlt ih =>
    obtain ⟨d, rfl, hd, hunique⟩ := ih
    have happend := Reference.read?_append hread
    refine ⟨cut [] r d, happend, (leftmost_cut_nil (by rw [happend, hread])).2 hd, ?_⟩
    intro d' htext hd'
    obtain ⟨d'', rfl, htext', hd''⟩ := exists_cut hread htext hd'
    rw [hunique d'' htext' hd'']

end Decomposition

/-! ## Substitution -/

/-- What is put for a reference that follows the text `before`: its value, if it has one and no
backslash stands right before it. -/
def Reference.replacement (lookup : String → Option Value) (before : List Char) (r : Reference) :
    List Char :=
  if before.getLast? = some '\\' then r.write
  else
    match lookup (String.ofList r.name) with
    | some value => value.write
    | none => r.write

namespace Decomposition

variable (lookup : String → Option Value)

/-- The text with its references replaced; `before` is what stands before it as it was. -/
def substituted (before : List Char) : Decomposition → List Char
  | plain cs => cs
  | cut cs r rest =>
    cs ++ r.replacement lookup (before ++ cs) ++ rest.substituted (before ++ cs ++ r.write)

/-- The names of the references without a value that no backslash stands right before, in order. -/
def unresolved (before : List Char) : Decomposition → List String
  | plain _ => []
  | cut cs r rest =>
    (if (before ++ cs).getLast? ≠ some '\\' ∧ lookup (String.ofList r.name) = none then
      [String.ofList r.name] else []) ++ rest.unresolved (before ++ cs ++ r.write)

variable {lookup} {c : Char} {before : List Char} {d : Decomposition}

theorem substituted_push : ∀ {d : Decomposition},
    (d.push c).substituted lookup before = c :: d.substituted lookup (before ++ [c])
  | plain _ => rfl
  | cut cs r rest => by
    simp [push, substituted]

theorem unresolved_push : ∀ {d : Decomposition},
    (d.push c).unresolved lookup before = d.unresolved lookup (before ++ [c])
  | plain _ => rfl
  | cut cs r rest => by
    simp [push, unresolved]

def references : Decomposition → List Reference
  | plain _ => []
  | cut _ r rest => r :: rest.references

/-- Where no reference has a value, all of them stay. -/
theorem substituted_eq_text : ∀ {d : Decomposition} {before : List Char},
    (∀ r ∈ d.references, lookup (String.ofList r.name) = none) → d.substituted lookup before = d.text
  | plain _, _, _ => rfl
  | cut cs r rest, before, h => by
    have hr : r.replacement lookup (before ++ cs) = r.write := by
      unfold Reference.replacement
      rw [h r List.mem_cons_self]
      exact ite_self _
    rw [substituted, text, hr,
      substituted_eq_text fun r' hr' => h r' (List.mem_cons_of_mem _ hr')]

end Decomposition

section Substitution

open Decomposition

variable {lookup : String → Option Value} {escaped : Bool} {cs before : List Char} {d : Decomposition}

theorem substituteAll_segments (htext : d.text = cs) (hd : d.Leftmost)
    (hescaped : before.getLast? = some '\\' ↔ escaped = true) :
    substituteAll lookup (segments escaped cs) =
      ⟨d.substituted lookup before, d.unresolved lookup before⟩ := by
  fun_induction segments escaped cs generalizing before d with
  | case1 =>
    rw [eq_plain_of_text_nil htext]
    rfl
  | case2 escaped c cs hread ih =>
    obtain ⟨d, rfl, htext', hd'⟩ := exists_push hread htext hd
    have hrest : substituteAll lookup (segments (c == '\\') cs) =
        ⟨d.substituted lookup (before ++ [c]), d.unresolved lookup (before ++ [c])⟩ :=
      ih htext' hd' (by simp)
    rw [substituteAll, hrest, substituted_push, unresolved_push]
    rfl
  | case3 escaped c cs r rest hread hlt ih =>
    obtain ⟨d, rfl, htext', hd'⟩ := exists_cut hread htext hd
    have hrest : substituteAll lookup (segments false rest) =
        ⟨d.substituted lookup (before ++ r.write), d.unresolved lookup (before ++ r.write)⟩ :=
      ih htext' hd' (iff_of_false (Reference.getLast?_append_write hread before) (by decide))
    cases escaped with
    | true =>
      have hlast := hescaped.2 rfl
      simp [substituteAll, hrest, substituted, unresolved, Reference.replacement, hlast]
    | false =>
      have hlast : before.getLast? ≠ some '\\' := by simpa using hescaped
      cases hlookup : lookup (String.ofList r.name) <;>
        simp [substituteAll, hrest, substituted, unresolved, Reference.replacement, hlast, hlookup]

/-- Names stand for their nearest bindings, and a text is cut at its references in one way only.
Substitution replaces those that have a value and no backslash right before them, leaves all else, and
reports the names of the others that no backslash stands before, in order. -/
theorem substitute_exact {t : Scopes} {s : Sheet} {n : NodeId} (hs : s.Acyclic) (hn : n < s.size)
    (cs : List Char) :
    let values := t.lookup s n
    (∀ name v, values name = some v ↔ t.Nearest s n name v) ∧
      ∃ d : Decomposition, d.text = cs ∧ d.Leftmost ∧
        (∀ d' : Decomposition, d'.text = cs → d'.Leftmost → d' = d) ∧
        substitute values cs = ⟨d.substituted values [], d.unresolved values []⟩ ∧
        ((∀ r ∈ d.references, ∀ v, ¬ t.Nearest s n (String.ofList r.name) v) →
          (substitute values cs).text = cs) := by
  intro values
  obtain ⟨d, htext, hd, hunique⟩ := exists_unique_leftmost cs
  have hsubst : substitute values cs = ⟨d.substituted values [], d.unresolved values []⟩ :=
    substituteAll_segments htext hd (by simp)
  refine ⟨fun name v => Scopes.lookup_eq_some_iff hs hn, d, htext, hd, hunique, hsubst, ?_⟩
  intro hnone
  have hvalues : ∀ r ∈ d.references, values (String.ofList r.name) = none := fun r hr =>
    (Scopes.lookup_eq_none_iff hs hn).2 (hnone r hr)
  rw [hsubst, substituted_eq_text hvalues, htext]

/-- A name bound to a text that looks like a reference; escaped, doubled and unclosed references to
it, and one to a name without a value inside what might have been another. -/
theorem substitute_exact_unclosed :
    let s := Sheet.ofForest [.node ⟨.rule "a", none⟩ [.node ⟨.rule "b", none⟩ []]]
    let t := (Scopes.empty.bind Sheet.root "x" (.scalar "q")).bind 1 "x" (.scalar "$z")
    let values := t.lookup s 2
    let cs := "\\#\x7b$x\x7d$$x$(y#\x7b$z\x7d#\x7b$x $(x)".toList
    s.Acyclic ∧ 2 < s.size ∧
      substitute values cs = ⟨"\\#\x7b$x\x7d$$z$(y#\x7b$z\x7d#\x7b$z $z".toList, ["z"]⟩ ∧
      (∀ name v, values name = some v ↔ t.Nearest s 2 name v) ∧
      ∃ d : Decomposition, d.text = cs ∧ d.Leftmost ∧
        (∀ d' : Decomposition, d'.text = cs → d'.Leftmost → d' = d) ∧
        substitute values cs = ⟨d.substituted values [], d.unresolved values []⟩ ∧
        ((∀ r ∈ d.references, ∀ v, ¬ t.Nearest s 2 (String.ofList r.name) v) →
          (substitute values cs).text = cs) := by
  intro s t values cs
  have hs : s.Acyclic := (Sheet.Linked.ofForest _).toAcyclic
  have hn : 2 < s.size := by decide +kernel
  exact ⟨hs, hn, by decide +kernel, substitute_exact hs hn cs⟩

end Substitution

end StyleExpand
