import StyleExpand.Text.Blank

/-!
# Trimmed texts

* `Text.trim_eq_self_iff` : a text is trimmed if no blank stands at either end;
* `Text.exists_eq_trim` : what trimming takes away is blank;
* `Text.filter_trim` : trimming takes nothing else away;
* `Text.trim_blanks` : blanks around a trimmed text go away;
* `Text.cutOnce_append` : the first occurrence of a text, whatever follows it.
-/

namespace StyleExpand.Text

def Blank (cs : List Char) : Prop := ∀ c ∈ cs, isBlank c = true

theorem blank_nil : Blank [] := by simp [Blank]

theorem blank_cons {c : Char} {cs : List Char} (hc : isBlank c = true) (h : Blank cs) :
    Blank (c :: cs) := by
  intro d hd
  rcases List.mem_cons.1 hd with rfl | hd
  · exact hc
  · exact h d hd

theorem blank_space : Blank [' '] := blank_cons (by decide) blank_nil

theorem blank_append {as bs : List Char} (ha : Blank as) (hb : Blank bs) : Blank (as ++ bs) := by
  intro c hc
  exact (List.mem_append.1 hc).elim (ha c) (hb c)

theorem blank_takeWhile (cs : List Char) : Blank (cs.takeWhile isBlank) := by
  intro c hc
  exact List.all_eq_true.1 List.all_takeWhile c hc

def Leads (cs : List Char) : Prop := ∀ c ∈ cs.head?, isBlank c = false

theorem trimStart_blank_append {bs cs : List Char} (hb : Blank bs) :
    trimStart (bs ++ cs) = trimStart cs := by
  rw [trimStart, trimStart, List.dropWhile_append_of_pos hb]

theorem trimStart_of_leads {cs : List Char} (h : Leads cs) : trimStart cs = cs := by
  cases cs with
  | nil => rfl
  | cons c cs => rw [trimStart, List.dropWhile_cons_of_neg (by simp [h c (by simp)])]

theorem leads_trimStart (cs : List Char) : Leads (trimStart cs) := by
  intro c hc
  have := List.head?_dropWhile_not isBlank cs
  rw [trimStart] at hc
  rw [Option.mem_def.1 hc] at this
  simpa using this

theorem trimEnd_eq (cs : List Char) : trimEnd cs = (trimStart cs.reverse).reverse := rfl

theorem trimEnd_append_blank {bs cs : List Char} (hb : Blank bs) :
    trimEnd (cs ++ bs) = trimEnd cs := by
  rw [trimEnd_eq, trimEnd_eq, List.reverse_append, trimStart_blank_append]
  exact fun c hc => hb c (List.mem_reverse.1 hc)

theorem trimEnd_of_leads {cs : List Char} (h : Leads cs.reverse) : trimEnd cs = cs := by
  rw [trimEnd_eq, trimStart_of_leads h, List.reverse_reverse]

theorem exists_eq_trimEnd (cs : List Char) : ∃ bs, Blank bs ∧ cs = trimEnd cs ++ bs := by
  refine ⟨(cs.reverse.takeWhile isBlank).reverse, fun c hc => ?_, ?_⟩
  · exact blank_takeWhile _ c (List.mem_reverse.1 hc)
  · rw [trimEnd, ← List.reverse_append, List.takeWhile_append_dropWhile, List.reverse_reverse]

theorem leads_trimEnd {cs : List Char} (h : Leads cs) : Leads (trimEnd cs) := by
  obtain ⟨bs, -, heq⟩ := exists_eq_trimEnd cs
  intro c hc
  refine h c ?_
  rw [heq, List.head?_append, Option.mem_def.1 hc]
  rfl

theorem trim_eq_self_iff {cs : List Char} : trim cs = cs ↔ Leads cs ∧ Leads cs.reverse := by
  constructor
  · intro h
    have hend : Leads (trim cs).reverse := by
      rw [trim, trimEnd_eq, List.reverse_reverse]
      exact leads_trimStart _
    have hstart : Leads (trim cs) := leads_trimEnd (leads_trimStart cs)
    rw [h] at hend hstart
    exact ⟨hstart, hend⟩
  · rintro ⟨hstart, hend⟩
    rw [trim, trimStart_of_leads hstart, trimEnd_of_leads hend]

theorem trim_trim (cs : List Char) : trim (trim cs) = trim cs := by
  refine trim_eq_self_iff.2 ⟨leads_trimEnd (leads_trimStart cs), ?_⟩
  rw [trim, trimEnd_eq, List.reverse_reverse]
  exact leads_trimStart _

theorem exists_eq_trim (cs : List Char) : ∃ as bs, Blank as ∧ Blank bs ∧ cs = as ++ trim cs ++ bs := by
  obtain ⟨bs, hb, heq⟩ := exists_eq_trimEnd (trimStart cs)
  refine ⟨cs.takeWhile isBlank, bs, blank_takeWhile cs, hb, ?_⟩
  rw [List.append_assoc, trim, ← heq, trimStart, List.takeWhile_append_dropWhile]

/-- Trimming takes no character away of a class without blanks. -/
theorem filter_trim {p : Char → Bool} (hp : ∀ c, isBlank c = true → p c = false) (cs : List Char) :
    (trim cs).filter p = cs.filter p := by
  have hblank {bs : List Char} (hb : Blank bs) : bs.filter p = [] :=
    List.filter_eq_nil_iff.2 fun c hc => by simp [hp c (hb c hc)]
  obtain ⟨as, bs, ha, hb, heq⟩ := exists_eq_trim cs
  calc (trim cs).filter p = as.filter p ++ (trim cs).filter p ++ bs.filter p := by
        rw [hblank ha, hblank hb, List.nil_append, List.append_nil]
    _ = cs.filter p := by rw [← List.filter_append, ← List.filter_append, ← heq]

theorem trim_blanks {as cs bs : List Char} (ha : Blank as) (hb : Blank bs) (h : trim cs = cs) :
    trim (as ++ cs ++ bs) = cs := by
  have hleads := (trim_eq_self_iff.1 h).1
  have hends := (trim_eq_self_iff.1 h).2
  cases cs with
  | nil =>
    rw [List.append_nil, trim, trimStart_blank_append ha]
    have : trimStart bs = [] := by
      rw [← List.append_nil bs, trimStart_blank_append hb, trimStart, List.dropWhile_nil]
    rw [this, trimEnd_nil]
  | cons c cs =>
    rw [trim, List.append_assoc, trimStart_blank_append ha, trimStart_of_leads, trimEnd_append_blank hb,
      trimEnd_of_leads hends]
    exact fun d hd => hleads d (by simpa using hd)

theorem trim_eq_nil_iff {cs : List Char} : trim cs = [] ↔ Blank cs := by
  constructor
  · intro h
    obtain ⟨as, bs, has, hbs, heq⟩ := exists_eq_trim cs
    rw [heq, h, List.append_nil]
    exact blank_append has hbs
  · intro h
    simpa using trim_blanks h blank_nil trim_nil

theorem trim_append_blank {cs ws : List Char} (h : Blank ws) : trim (cs ++ ws) = trim cs := by
  obtain ⟨as, bs, has, hbs, heq⟩ := exists_eq_trim cs
  have hall : cs ++ ws = as ++ trim cs ++ (bs ++ ws) := by rw [← List.append_assoc, ← heq]
  rw [hall]
  exact trim_blanks has (blank_append hbs h) (trim_trim cs)

theorem trim_blank_append {cs ws : List Char} (h : Blank ws) : trim (ws ++ cs) = trim cs := by
  obtain ⟨as, bs, has, hbs, heq⟩ := exists_eq_trim cs
  have hall : ws ++ cs = ws ++ as ++ trim cs ++ bs := by
    rw [List.append_assoc ws, List.append_assoc ws, ← heq]
  rw [hall]
  exact trim_blanks (blank_append h has) hbs (trim_trim cs)

theorem Leads.of_isPrefix {as cs : List Char} (h : Leads cs) (hcs : as <+: cs) : Leads as := by
  obtain ⟨rest, rfl⟩ := hcs
  cases as with
  | nil => exact fun c hc => by cases hc
  | cons a as => exact h

theorem Leads.trim_isPrefix {cs : List Char} (h : Leads cs) : trim cs <+: cs := by
  obtain ⟨bs, -, heq⟩ := exists_eq_trimEnd cs
  rw [trim, trimStart_of_leads h]
  exact ⟨bs, heq.symm⟩

/-! ## The first occurrence of a text -/

theorem afterStart_append (p rest : List Char) : afterStart p (p ++ rest) = some rest := by
  induction p with
  | nil => rfl
  | cons c p ih => simp [afterStart, ih]

theorem afterStart_eq_none_iff {p cs : List Char} : afterStart p cs = none ↔ ¬ p <+: cs := by
  constructor
  · rintro h ⟨rest, rfl⟩
    rw [afterStart_append] at h
    simp at h
  · intro h
    cases heq : afterStart p cs with
    | none => rfl
    | some rest => exact absurd ⟨rest, (append_of_afterStart heq).symm⟩ h

/-- Where the first occurrence is does not hang on what follows it. -/
theorem cutOnce_append {sep : List Char} (hsep : sep ≠ []) : ∀ {text : List Char},
    (∀ a b, text = a ++ b → b ≠ [] → ¬ sep <+: b ++ sep) → ∀ rest : List Char,
    cutOnce sep (text ++ sep ++ rest) = some (text, rest)
  | [], _, rest => by
    rw [List.nil_append]
    cases sep with
    | nil => exact absurd rfl hsep
    | cons s sep =>
      have := afterStart_append (s :: sep) rest
      rw [List.cons_append] at this ⊢
      rw [cutOnce, this]
  | c :: text, h, rest => by
    have hhere : afterStart sep (c :: (text ++ sep ++ rest)) = none := by
      rw [afterStart_eq_none_iff]
      intro hstart
      refine h [] (c :: text) rfl (by simp) ?_
      refine List.prefix_of_prefix_length_le hstart ⟨rest, by simp⟩ ?_
      simp
      omega
    rw [List.cons_append, List.cons_append, cutOnce, hhere,
      cutOnce_append hsep (fun a b hab hb => h (c :: a) b (by rw [hab, List.cons_append]) hb) rest]
    rfl

/-- No earlier place of the text completes the separator. -/
theorem not_prefix_of_cutOnce {sep : List Char} (hsep : sep ≠ []) :
    ∀ {cs text rest : List Char}, cutOnce sep cs = some (text, rest) →
      ∀ as bs, text = as ++ bs → bs ≠ [] → ¬ sep <+: bs ++ sep
  | [], text, rest, h => by
    rw [cutOnce, if_neg (by simp [hsep])] at h
    cases h
  | c :: cs, text, rest, h => by
    have hcs := append_of_cutOnce h
    rw [cutOnce] at h
    split at h
    · cases h
      intro as bs hbs hne
      exact absurd (List.append_eq_nil_iff.1 hbs.symm).2 hne
    · rename_i hhere
      obtain ⟨⟨before, after⟩, hsides, heq⟩ := Option.map_eq_some_iff.1 h
      cases heq
      intro as bs hbs hne hstart
      cases as with
      | nil =>
        -- the whole text and what follows it do not start with the separator
        refine afterStart_eq_none_iff.1 hhere (hstart.trans ⟨after, ?_⟩)
        rw [hcs, hbs, List.nil_append]
      | cons a as =>
        exact not_prefix_of_cutOnce hsep hsides as bs (List.cons.inj hbs).2 hne hstart

theorem not_infix_of_cutOnce {sep cs : List Char} (hsep : sep ≠ []) (h : cutOnce sep cs = none) :
    ¬ sep <:+: cs := by
  induction cs with
  | nil => exact fun hin => hsep (List.infix_nil.1 hin)
  | cons c cs ih =>
    rw [cutOnce] at h
    split at h
    · cases h
    · rename_i hhere
      intro hin
      rcases List.infix_cons_iff.1 hin with hstart | hin
      · exact afterStart_eq_none_iff.1 hhere hstart
      · exact ih (Option.map_eq_none_iff.1 h) hin

end StyleExpand.Text
