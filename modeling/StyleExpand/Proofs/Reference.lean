import StyleExpand.Reference

/-!
# The references of a text

* `Reference.isName` : the names that can be referred to; `Reference.read?_write` : a reference to one
  is read as it was written;
* `references` : the references of a text that no backslash makes plain, from left to right;
* `exists_split_of_mem` : where such a reference stands; `RefersTo` : one to a given name is there;
* `unresolved_substitute` : the names that a substitution reports;
* `substitute_of_references_nil`, `substitute_write` : a text without references, and one that is
  nothing but a reference.
-/

namespace StyleExpand

namespace Reference

variable {c : Char} {cs name rest : List Char} {r : Reference}

/-! ## Names -/

def delimiters : List Char := ['$', '#', '{', '}', '(', ')', '\\']

theorem isNameChar_delimiter (h : c ∈ delimiters) : Text.isNameChar c = false := by
  have hall : (delimiters.all fun c => !Text.isNameChar c) = true := by decide +kernel
  simpa using List.all_eq_true.1 hall c h

def isName : List Char → Bool
  | [] => false
  | c :: cs => Text.isNameStart c && cs.all Text.isNameChar

theorem isName_of_name? (h : name? cs = some (name, rest)) : isName name = true := by
  cases cs with
  | nil => simp [name?] at h
  | cons c cs =>
    rw [name?] at h
    split at h
    · rename_i hc
      obtain ⟨rfl, rfl⟩ := Prod.mk.inj (Option.some.inj h)
      rw [isName, hc, Bool.true_and]
      exact List.all_takeWhile
    · cases h

theorem isName_of_closed? {form : ReferenceForm} {closer : Char}
    (h : closed? form closer cs = some (r, rest)) : isName r.name = true := by
  unfold closed? at h
  split at h
  · rename_i hname
    split at h
    · obtain ⟨rfl, rfl⟩ := Prod.mk.inj (Option.some.inj h)
      exact isName_of_name? hname
    · cases h
  · cases h

theorem isName_of_read? (h : read? cs = some (r, rest)) : isName r.name = true := by
  unfold read? at h
  split at h
  · exact isName_of_closed? h
  · exact isName_of_closed? h
  · obtain ⟨found, hfound, heq⟩ := Option.map_eq_some_iff.1 h
    obtain ⟨rfl, rfl⟩ := Prod.mk.inj heq
    exact isName_of_name? hfound
  · cases h

/-! ## Reading what was written -/

theorem name?_append_of_isName (h : isName name = true)
    (hrest : ∀ c ∈ rest.head?, Text.isNameChar c = false) : name? (name ++ rest) = some (name, rest) := by
  cases name with
  | nil => cases h
  | cons c cs =>
    rw [isName, Bool.and_eq_true, List.all_eq_true] at h
    have hstop : rest.takeWhile Text.isNameChar = [] ∧ rest.dropWhile Text.isNameChar = rest := by
      cases rest with
      | nil => exact ⟨rfl, rfl⟩
      | cons d ds => simp [hrest d rfl]
    rw [List.cons_append, name?, if_pos h.1, List.takeWhile_append_of_pos h.2,
      List.dropWhile_append_of_pos h.2, hstop.1, hstop.2, List.append_nil]

theorem closed?_append_of_isName (form : ReferenceForm) {closer : Char} (h : isName name = true)
    (hcloser : Text.isNameChar closer = false) :
    closed? form closer (name ++ closer :: rest) = some (⟨form, name⟩, rest) := by
  rw [closed?, name?_append_of_isName h (by simpa using hcloser)]
  simp

theorem read?_dollar (h : cs.head? ≠ some '(') :
    read? ('$' :: cs) = (name? cs).map fun found => (⟨.bare, found.1⟩, found.2) := by
  unfold read?
  split
  · simp_all
  · simp_all
  · simp_all
  · simp_all

/-- A reference to a name is read as it was written, if nothing behind it makes a bare name longer. -/
theorem read?_write (h : isName r.name = true)
    (hrest : r.form = .bare → ∀ c ∈ rest.head?, Text.isNameChar c = false) :
    read? (r.write ++ rest) = some (r, rest) := by
  obtain ⟨form, name⟩ := r
  cases form with
  | braced =>
    rw [write, List.cons_append, List.cons_append, List.cons_append, List.append_assoc, read?]
    exact closed?_append_of_isName .braced h (isNameChar_delimiter (by simp [delimiters]))
  | parenthesized =>
    rw [write, List.cons_append, List.cons_append, List.append_assoc, read?]
    exact closed?_append_of_isName .parenthesized h (isNameChar_delimiter (by simp [delimiters]))
  | bare =>
    have hhead : (name ++ rest).head? ≠ some '(' := by
      cases name with
      | nil => cases h
      | cons c cs =>
        rw [isName, Bool.and_eq_true] at h
        intro heq
        obtain rfl : c = '(' := by simpa using heq
        exact absurd h.1 (by decide)
    rw [write, List.cons_append, read?_dollar hhead, name?_append_of_isName h (hrest rfl)]
    rfl

theorem read?_eq_none (hdollar : c ≠ '$') (hhash : c ≠ '#') : read? (c :: cs) = none := by
  unfold read?
  split
  · simp_all
  · simp_all
  · simp_all
  · rfl

/-! ## Texts that cannot be read -/

theorem ne_sigil (h : Text.isNameChar c = true) : c ≠ '$' ∧ c ≠ '#' := by
  constructor <;>
  · rintro rfl
    rw [isNameChar_delimiter (by simp [delimiters])] at h
    cases h

/-- Characters of names that make up no name do not start like one. -/
theorem name?_eq_none (hchars : (c :: cs).all Text.isNameChar = true) (h : isName (c :: cs) = false)
    (rest : List Char) : name? (c :: rest) = none := by
  rw [List.all_cons, Bool.and_eq_true] at hchars
  rw [isName, hchars.2, Bool.and_true] at h
  rw [name?, h]
  rfl

theorem read?_dollar_eq_none (hchars : (c :: cs).all Text.isNameChar = true)
    (h : isName (c :: cs) = false) (rest : List Char) : read? ('$' :: c :: rest) = none := by
  rw [read?_dollar, name?_eq_none hchars h]
  · rfl
  · intro heq
    obtain rfl : c = '(' := by simpa using heq
    rw [List.all_cons, isNameChar_delimiter (by simp [delimiters])] at hchars
    cases hchars

theorem backslash_notMem_write (h : isName r.name = true) : '\\' ∉ r.write := by
  obtain ⟨form, name⟩ := r
  have hname : '\\' ∉ name := by
    cases name with
    | nil => cases h
    | cons c cs =>
      rw [isName, Bool.and_eq_true, List.all_eq_true] at h
      intro hmem
      rcases List.mem_cons.1 hmem with rfl | hmem
      · exact absurd h.1 (by decide)
      · have hchar := h.2 _ hmem
        rw [isNameChar_delimiter (by simp [delimiters])] at hchar
        cases hchar
  cases form <;> simp [write, hname]

end Reference

/-! ## The references of a text -/

def Segment.reference? : Segment → Option Reference
  | .plain _ => none
  | .reference r => some r

/-- The references of a text in order, less those with a backslash right before them; `escaped` says
that one stands before the text. -/
def references (escaped : Bool) (cs : List Char) : List Reference :=
  (segments escaped cs).filterMap Segment.reference?

section Equations

variable {escaped : Bool} {c : Char} {cs rest : List Char} {r : Reference}

theorem segments_of_none (h : Reference.read? (c :: cs) = none) :
    segments escaped (c :: cs) = .plain [c] :: segments (c == '\\') cs := by
  rw [segments]
  split
  · rfl
  · simp_all

theorem segments_of_some (h : Reference.read? (c :: cs) = some (r, rest)) :
    segments escaped (c :: cs) =
      (if escaped then .plain r.write else .reference r) :: segments false rest := by
  rw [segments]
  split <;> simp_all

@[simp] theorem references_nil : references escaped [] = [] := by
  rw [references, segments, List.filterMap_nil]

theorem references_of_none (h : Reference.read? (c :: cs) = none) :
    references escaped (c :: cs) = references (c == '\\') cs := by
  rw [references, segments_of_none h]
  rfl

theorem references_of_some (h : Reference.read? (c :: cs) = some (r, rest)) :
    references escaped (c :: cs) = (if escaped then [] else [r]) ++ references false rest := by
  rw [references, segments_of_some h]
  cases escaped <;> rfl

end Equations

/-- The segments of a text make up the text. -/
theorem flatMap_write_segments (escaped : Bool) (cs : List Char) :
    (segments escaped cs).flatMap Segment.write = cs := by
  fun_induction segments escaped cs with
  | case1 => rfl
  | case2 escaped c cs hread ih =>
    rw [List.flatMap_cons, ih]
    rfl
  | case3 escaped c cs r rest hread hlt ih =>
    rw [List.flatMap_cons, ih, ← Reference.read?_append hread]
    cases escaped <;> rfl

/-- A reference of a text stands somewhere in it, and no backslash stands right before it. -/
theorem exists_split_of_mem {escaped : Bool} {cs : List Char} {r : Reference}
    (h : r ∈ references escaped cs) :
    ∃ before after, cs = before ++ r.write ++ after ∧ (before = [] → escaped = false) ∧
      before.getLast? ≠ some '\\' := by
  fun_induction segments escaped cs with
  | case1 => simp at h
  | case2 escaped c cs hread ih =>
    rw [references_of_none hread] at h
    obtain ⟨before, after, rfl, hfirst, hlast⟩ := ih h
    refine ⟨c :: before, after, rfl, by simp, ?_⟩
    cases before with
    | nil => simpa using hfirst rfl
    | cons d ds => simpa using hlast
  | case3 escaped c cs r' rest hread hlt ih =>
    rw [references_of_some hread, List.mem_append] at h
    rw [← Reference.read?_append hread]
    rcases h with h | h
    · cases escaped with
      | true => simp at h
      | false =>
        obtain rfl : r = r' := by simpa using h
        exact ⟨[], rest, by simp, fun _ => rfl, by simp⟩
    -- a later reference has the whole of this one in front of it, which ends in no backslash
    · obtain ⟨before, after, rfl, -, hlast⟩ := ih h
      refine ⟨r'.write ++ before, after, by simp, fun hnil => ?_, ?_⟩
      · exact absurd (List.append_eq_nil_iff.1 hnil).1 r'.write_ne_nil
      · rw [List.getLast?_append]
        intro heq
        cases hbefore : before.getLast? with
        | some d =>
          rw [hbefore] at heq hlast
          exact hlast heq
        | none =>
          rw [hbefore, Option.none_or] at heq
          exact Reference.backslash_notMem_write (Reference.isName_of_read? hread)
            (List.mem_of_getLast? heq)

/-- A text holds a reference to a name, and no backslash stands right before it. -/
def RefersTo (cs : List Char) (name : String) : Prop :=
  ∃ r ∈ references false cs, String.ofList r.name = name ∧
    ∃ before after, cs = before ++ r.write ++ after ∧ before.getLast? ≠ some '\\'

/-! ## Substitution -/

variable {lookup : String → Option Value}

theorem unresolved_substituteAll (segs : List Segment) :
    (substituteAll lookup segs).unresolved =
      ((segs.filterMap Segment.reference?).map fun r => String.ofList r.name).filter fun name =>
        (lookup name).isNone := by
  induction segs with
  | nil => rfl
  | cons seg segs ih =>
    cases seg with
    | plain text => exact ih
    | reference r =>
      have hsome : Segment.reference? (.reference r) = some r := rfl
      rw [substituteAll, List.filterMap_cons_some hsome, List.map_cons, List.filter_cons, ← ih]
      cases lookup (String.ofList r.name) <;> rfl

/-- The names that a substitution reports are those of the references without a value, in order. -/
theorem unresolved_substitute (cs : List Char) :
    (substitute lookup cs).unresolved =
      ((references false cs).map fun r => String.ofList r.name).filter fun name =>
        (lookup name).isNone :=
  unresolved_substituteAll _

/-- Every name that a substitution reports is referred to in the text. -/
theorem refersTo_of_mem_unresolved {cs : List Char} {name : String}
    (h : name ∈ (substitute lookup cs).unresolved) : RefersTo cs name := by
  rw [unresolved_substitute, List.mem_filter, List.mem_map] at h
  obtain ⟨⟨r, hr, hname⟩, -⟩ := h
  obtain ⟨before, after, hsplit, -, hlast⟩ := exists_split_of_mem hr
  exact ⟨r, hr, hname, before, after, hsplit, hlast⟩

theorem substituteAll_of_no_reference {segs : List Segment}
    (h : segs.filterMap Segment.reference? = []) :
    substituteAll lookup segs = ⟨segs.flatMap Segment.write, []⟩ := by
  induction segs with
  | nil => rfl
  | cons seg segs ih =>
    cases seg with
    | plain text =>
      rw [substituteAll, ih h]
      rfl
    | reference r =>
      have hsome : Segment.reference? (.reference r) = some r := rfl
      rw [List.filterMap_cons_some hsome] at h
      cases h

theorem substitute_of_references_nil {cs : List Char} (h : references false cs = []) :
    substitute lookup cs = ⟨cs, []⟩ := by
  rw [substitute, substituteAll_of_no_reference h, flatMap_write_segments]

/-! ## Texts that look like one reference -/

section OneReference

variable {escaped : Bool} {cs name : List Char}

theorem segments_write {r : Reference} (h : Reference.isName r.name = true) :
    segments false r.write = [.reference r] := by
  have hread : Reference.read? r.write = some (r, []) := by
    have hwhole : Reference.read? (r.write ++ []) = some (r, []) :=
      Reference.read?_write h fun _ => by simp
    rwa [List.append_nil] at hwhole
  cases hwrite : r.write with
  | nil => exact absurd hwrite r.write_ne_nil
  | cons c cs =>
    rw [hwrite] at hread
    rw [segments_of_some hread, segments]
    rfl

theorem substitute_write {r : Reference} {v : Value} (h : Reference.isName r.name = true)
    (hv : lookup (String.ofList r.name) = some v) : substitute lookup r.write = ⟨v.write, []⟩ := by
  rw [substitute, segments_write h, substituteAll, substituteAll]
  simp [hv]

theorem references_of_plain (h : ∀ c ∈ cs, c ≠ '$' ∧ c ≠ '#') : references escaped cs = [] := by
  induction cs generalizing escaped with
  | nil => exact references_nil
  | cons c cs ih =>
    have hc := h c (by simp)
    rw [references_of_none (Reference.read?_eq_none hc.1 hc.2)]
    exact ih fun d hd => h d (by simp [hd])

/-- What is written like a reference, but to no name that can be referred to, holds no reference. -/
theorem references_write_of_not_isName (form : ReferenceForm) (hne : name ≠ [])
    (hchars : name.all Text.isNameChar = true) (h : Reference.isName name = false) :
    references escaped (Reference.write ⟨form, name⟩) = [] := by
  obtain ⟨c, cs, rfl⟩ := List.exists_cons_of_ne_nil hne
  have hplain : ∀ d ∈ c :: cs, d ≠ '$' ∧ d ≠ '#' := fun d hd =>
    Reference.ne_sigil (List.all_eq_true.1 hchars d hd)
  have hname := Reference.name?_eq_none hchars h
  have hdollar := Reference.read?_dollar_eq_none hchars h
  -- no reference starts at any character, so all of them are plain
  cases form with
  | braced =>
    have hread : Reference.read? ('#' :: '{' :: '$' :: c :: (cs ++ ['}'])) = none := by
      rw [Reference.read?, Reference.closed?, hname]
    have hbrace : Reference.read? ('{' :: '$' :: c :: (cs ++ ['}'])) = none :=
      Reference.read?_eq_none (by decide) (by decide)
    have hwrite : Reference.write ⟨.braced, c :: cs⟩ = '#' :: '{' :: '$' :: c :: (cs ++ ['}']) := rfl
    rw [hwrite, references_of_none hread, references_of_none hbrace, references_of_none (hdollar _)]
    exact references_of_plain (by simpa [or_imp, forall_and] using hplain)
  | parenthesized =>
    have hread : Reference.read? ('$' :: '(' :: c :: (cs ++ [')'])) = none := by
      rw [Reference.read?, Reference.closed?, hname]
    have hwrite : Reference.write ⟨.parenthesized, c :: cs⟩ = '$' :: '(' :: c :: (cs ++ [')']) := rfl
    rw [hwrite, references_of_none hread]
    exact references_of_plain (by simpa [or_imp, forall_and] using hplain)
  | bare =>
    have hwrite : Reference.write ⟨.bare, c :: cs⟩ = '$' :: c :: cs := rfl
    rw [hwrite, references_of_none (hdollar cs)]
    exact references_of_plain hplain

end OneReference

end StyleExpand
