import StyleExpand.CommandLine.Request

/-!
# What arguments ask for

A request is read from left to right and changes with each argument. What comes out can be said of the
whole list of arguments at once.

* `Item.ofArguments?` : the arguments, each flag together with its value;
* `Request.Describes` : a request says what the arguments ask for;
* `Request.read_eq_ok_iff` : the request that is read is the one that describes the arguments.
-/

namespace StyleExpand

open Request (ValueFlag)

/-- A flag with its value, or an argument on its own. -/
inductive Item where
  | valued (flag : ValueFlag) (value : String)
  | plain (argument : String)
  deriving DecidableEq

namespace Item

/-- The arguments, each flag together with its value; none if a flag is left without one. -/
def ofArguments? : List String → Option (List Item)
  | [] => some []
  | argument :: rest =>
    match ValueFlag.ofText? argument with
    | some flag =>
      match rest with
      | [] => none
      | value :: rest => (ofArguments? rest).map (.valued flag value :: ·)
    | none => (ofArguments? rest).map (.plain argument :: ·)

def value? (flag : ValueFlag) : Item → Option String
  | .valued own value => if own = flag then some value else none
  | .plain _ => none

def argument? : Item → Option String
  | .valued _ _ => none
  | .plain argument => some argument

def values (flag : ValueFlag) (items : List Item) : List String := items.filterMap (value? flag)

def arguments (items : List Item) : List String := items.filterMap argument?

theorem values_append (flag : ValueFlag) (is js : List Item) :
    values flag (is ++ js) = values flag is ++ values flag js := List.filterMap_append

theorem arguments_append (is js : List Item) :
    arguments (is ++ js) = arguments is ++ arguments js := List.filterMap_append

end Item

def switches : List String := ["--no-warn", "--dump-tree", "-v", "--verbose"]

namespace Request

open Item

/-- Items lead from one request to another. -/
structure Continues (r : Request) (items : List Item) (r' : Request) : Prop where
  config : r'.config = (values .config items).getLast?.or r.config
  output : r'.output = (values .output items).getLast?.or r.output
  bindings : ∃ pairs, (values .variable items).map readAssignment = pairs.map .ok ∧
    r'.bindings = r.bindings ++ pairs
  silent : r'.silent = (r.silent || (arguments items).any (· = "--no-warn"))
  outline : r'.outline = (r.outline || (arguments items).any (· = "--dump-tree"))
  verbose : r'.verbose = (r.verbose || (arguments items).any fun a => a = "-v" ∨ a = "--verbose")
  input : r'.input.toList = r.input.toList ++ (arguments items).filter (· ∉ switches)
  known : ∀ a ∈ arguments items, a ∈ switches ∨ a = standardInput ∨ a.startsWith "-" = false

variable {r r₁ r' : Request}

theorem Continues.refl (r : Request) : r.Continues [] r := by
  constructor <;> simp [values, arguments]

theorem Continues.unique {items : List Item} (h : r.Continues items r₁) (h' : r.Continues items r') :
    r₁ = r' := by
  obtain ⟨pairs, hpairs, hbindings⟩ := h.bindings
  obtain ⟨pairs', hpairs', hbindings'⟩ := h'.bindings
  have hsame : pairs = pairs' :=
    (List.map_inj_right fun _ _ => Except.ok.inj).1 (hpairs.symm.trans hpairs')
  have hlists : r₁.input.toList = r'.input.toList := h.input.trans h'.input.symm
  have hinput : r₁.input = r'.input := by
    cases hr : r₁.input <;> cases hr' : r'.input <;> simp_all
  have hconfig := h.config.trans h'.config.symm
  have houtput := h.output.trans h'.output.symm
  have hsilent := h.silent.trans h'.silent.symm
  have houtline := h.outline.trans h'.outline.symm
  have hverbose := h.verbose.trans h'.verbose.symm
  cases r₁
  cases r'
  simp_all

theorem Continues.append {is js : List Item} (h : r.Continues is r₁) (h' : r₁.Continues js r') :
    r.Continues (is ++ js) r' := by
  obtain ⟨pairs, hpairs, hbindings⟩ := h.bindings
  obtain ⟨pairs', hpairs', hbindings'⟩ := h'.bindings
  constructor
  · rw [h'.config, h.config, values_append, List.getLast?_append, Option.or_assoc]
  · rw [h'.output, h.output, values_append, List.getLast?_append, Option.or_assoc]
  · exact ⟨pairs ++ pairs', by rw [values_append, List.map_append, hpairs, hpairs', List.map_append],
      by rw [hbindings', hbindings, List.append_assoc]⟩
  · rw [h'.silent, h.silent, arguments_append, List.any_append, Bool.or_assoc]
  · rw [h'.outline, h.outline, arguments_append, List.any_append, Bool.or_assoc]
  · rw [h'.verbose, h.verbose, arguments_append, List.any_append, Bool.or_assoc]
  · rw [h'.input, h.input, arguments_append, List.filter_append, List.append_assoc]
  · intro a ha
    rw [arguments_append] at ha
    exact (List.mem_append.1 ha).elim (h.known a) (h'.known a)

theorem Continues.exists_between {is js : List Item} (h : r.Continues (is ++ js) r') :
    ∃ r₁, r.Continues is r₁ ∧ r₁.Continues js r' := by
  obtain ⟨hconfig, houtput, ⟨pairs, hpairs, hbindings⟩, hsilent, houtline, hverbose, hinput, hknown⟩ := h
  rw [values_append, List.map_append] at hpairs
  obtain ⟨first, second, rfl, hfirst, hsecond⟩ := List.append_eq_map_iff.1 hpairs
  rw [arguments_append] at hsilent houtline hverbose hinput hknown
  rw [values_append, List.getLast?_append, Option.or_assoc] at hconfig houtput
  rw [List.any_append, ← Bool.or_assoc] at hsilent houtline hverbose
  rw [List.filter_append, ← List.append_assoc] at hinput
  -- there is at most one input in all, so there is at most one up to here
  obtain ⟨input, hbetween⟩ : ∃ input : Option String,
      input.toList = r.input.toList ++ (arguments is).filter (· ∉ switches) := by
    generalize r.input.toList ++ (arguments is).filter (· ∉ switches) = inputs at hinput
    match inputs with
    | [] => exact ⟨none, rfl⟩
    | [a] => exact ⟨some a, rfl⟩
    | a :: b :: others => cases hr : r'.input <;> simp [hr] at hinput
  refine ⟨⟨input, (values .output is).getLast?.or r.output, (values .config is).getLast?.or r.config,
    r.bindings ++ first, r.silent || (arguments is).any (· = "--no-warn"),
    r.outline || (arguments is).any (· = "--dump-tree"),
    r.verbose || (arguments is).any fun a => a = "-v" ∨ a = "--verbose"⟩, ?_, ?_⟩
  · exact ⟨rfl, rfl, ⟨first, hfirst.symm, rfl⟩, rfl, rfl, rfl, hbetween,
      fun a ha => hknown a (List.mem_append_left _ ha)⟩
  · exact ⟨hconfig, houtput, ⟨second, hsecond.symm, by rw [hbindings, List.append_assoc]⟩, hsilent,
      houtline, hverbose, by rw [hinput, hbetween], fun a ha => hknown a (List.mem_append_right _ ha)⟩

/-! ## One argument -/

theorem continues_of_withValue {flag : ValueFlag} {value : String}
    (h : r.withValue flag value = .ok r') : r.Continues [.valued flag value] r' := by
  match flag with
  | .config | .output =>
    obtain rfl := Except.ok.inj h
    constructor <;> simp [values, value?, arguments, argument?]
  | .variable =>
    unfold withValue at h
    cases hpair : readAssignment value with
    | error cause => simp [hpair] at h
    | ok pair =>
      rw [hpair] at h
      obtain rfl := Except.ok.inj h
      constructor <;> simp [values, value?, arguments, argument?, hpair]

theorem withValue_eq_ok_iff {flag : ValueFlag} {value : String} :
    r.withValue flag value = .ok r' ↔ r.Continues [.valued flag value] r' := by
  refine ⟨continues_of_withValue, fun h => ?_⟩
  cases hwith : r.withValue flag value with
  | ok r₁ => rw [(continues_of_withValue hwith).unique h]
  | error e =>
    match flag with
    | .config | .output => cases hwith
    | .variable =>
      obtain ⟨pairs, hpairs, -⟩ := h.bindings
      cases hpair : readAssignment value with
      | ok pair => simp [withValue, hpair] at hwith
      | error cause => cases pairs <;> simp [values, value?, hpair] at hpairs

theorem continues_of_withArgument {argument : String} (h : r.withArgument argument = .ok r') :
    r.Continues [.plain argument] r' := by
  unfold withArgument at h
  split at h
  · subst argument
    obtain rfl := Except.ok.inj h
    constructor <;> simp [values, value?, arguments, argument?, switches]
  rename_i hsilent
  split at h
  · subst argument
    obtain rfl := Except.ok.inj h
    constructor <;> simp [values, value?, arguments, argument?, switches]
  rename_i houtline
  split at h
  · rename_i hverbose
    obtain rfl := Except.ok.inj h
    rcases hverbose with rfl | rfl <;> constructor <;>
      simp [values, value?, arguments, argument?, switches]
  rename_i hverbose
  split at h
  · cases h
  rename_i hflag
  split at h
  · cases h
  rename_i hinput
  rw [not_or] at hverbose
  have hform : argument = standardInput ∨ argument.startsWith "-" = false := by grind
  obtain rfl := Except.ok.inj h
  constructor <;>
    simp_all [values, value?, arguments, argument?, switches]

theorem withArgument_eq_ok_iff {argument : String} :
    r.withArgument argument = .ok r' ↔ r.Continues [.plain argument] r' := by
  refine ⟨continues_of_withArgument, fun h => ?_⟩
  cases hwith : r.withArgument argument with
  | ok r₁ => rw [(continues_of_withArgument hwith).unique h]
  | error e =>
    by_cases hswitch : argument ∈ switches
    · simp only [switches, List.mem_cons, List.not_mem_nil, or_false] at hswitch
      rcases hswitch with rfl | rfl | rfl | rfl <;> simp [withArgument] at hwith
    -- an argument that is no switch is the only input, and may be one
    · have hform := (h.known argument (by simp [arguments, argument?])).resolve_left hswitch
      have hinput := h.input
      have hnone : r.input = none := by
        cases hr : r.input <;> cases hr' : r'.input <;>
          simp_all [arguments, argument?]
      simp only [switches, List.mem_cons, List.not_mem_nil, or_false, not_or] at hswitch
      rcases hform with rfl | hform <;> simp_all [withArgument]

/-! ## All arguments -/

theorem exists_continues_cons {item : Item} {others : Option (List Item)} :
    (∃ items, others.map (item :: ·) = some items ∧ r.Continues items r') ↔
      ∃ r₁, r.Continues [item] r₁ ∧ ∃ items, others = some items ∧ r₁.Continues items r' := by
  constructor
  · rintro ⟨items, hitems, h⟩
    obtain ⟨rest, rfl, rfl⟩ := Option.map_eq_some_iff.1 hitems
    obtain ⟨r₁, hfirst, hrest⟩ : ∃ r₁, r.Continues [item] r₁ ∧ r₁.Continues rest r' :=
      Continues.exists_between h
    exact ⟨r₁, hfirst, rest, rfl, hrest⟩
  · rintro ⟨r₁, hfirst, rest, rfl, hrest⟩
    exact ⟨item :: rest, rfl, hfirst.append hrest⟩

theorem withArguments_eq_ok_iff {args : List String} :
    r.withArguments args = .ok r' ↔ ∃ items, ofArguments? args = some items ∧ r.Continues items r' := by
  induction args using ofArguments?.induct generalizing r with
  | case1 =>
    have hnone : r.Continues [] r' ↔ r = r' := ⟨(Continues.refl r).unique, by rintro rfl; exact .refl r⟩
    simp [withArguments, ofArguments?, hnone]
  | case2 argument flag hflag => simp [withArguments, ofArguments?, hflag]
  | case3 argument flag hflag value rest ih =>
    have hstep : r.withArguments (argument :: value :: rest) = .ok r' ↔
        ∃ r₁, r.withValue flag value = .ok r₁ ∧ r₁.withArguments rest = .ok r' := by
      rw [withArguments, hflag]
      dsimp only
      cases r.withValue flag value <;> simp
    rw [hstep, ofArguments?, hflag]
    dsimp only
    simp only [exists_continues_cons, withValue_eq_ok_iff, ih]
  | case4 argument rest hflag ih =>
    have hstep : r.withArguments (argument :: rest) = .ok r' ↔
        ∃ r₁, r.withArgument argument = .ok r₁ ∧ r₁.withArguments rest = .ok r' := by
      rw [withArguments, hflag]
      dsimp only
      cases r.withArgument argument <;> simp
    rw [hstep, ofArguments?, hflag]
    dsimp only
    simp only [exists_continues_cons, withArgument_eq_ok_iff, ih]

/-- What items ask for: the last options file and the last output, all variables in order, the
switches wherever they stand, and at most one input. -/
structure Describes (r : Request) (items : List Item) : Prop where
  config : r.config = (values .config items).getLast?
  output : r.output = (values .output items).getLast?
  bindings : (values .variable items).map readAssignment = r.bindings.map .ok
  silent : r.silent = true ↔ "--no-warn" ∈ arguments items
  outline : r.outline = true ↔ "--dump-tree" ∈ arguments items
  verbose : r.verbose = true ↔ "-v" ∈ arguments items ∨ "--verbose" ∈ arguments items
  input : r.input.toList = (arguments items).filter (· ∉ switches)
  known : ∀ a ∈ arguments items, a ∈ switches ∨ a = standardInput ∨ a.startsWith "-" = false

theorem describes_iff {items : List Item} : r.Describes items ↔ nothing.Continues items r := by
  have hswitch : ∀ (b : Bool) (p : String → Bool),
      b = (false || (arguments items).any p) ↔ (b = true ↔ ∃ a ∈ arguments items, p a = true) := by
    intro b p
    rw [Bool.false_or, Bool.eq_iff_iff, List.any_eq_true]
  constructor
  · rintro ⟨hconfig, houtput, hbindings, hsilent, houtline, hverbose, hinput, hknown⟩
    refine ⟨by simpa [nothing] using hconfig, by simpa [nothing] using houtput,
      ⟨r.bindings, hbindings, rfl⟩, ?_, ?_, ?_, hinput, hknown⟩
    · exact (hswitch ..).2 (by simpa using hsilent)
    · exact (hswitch ..).2 (by simpa using houtline)
    · exact (hswitch ..).2 (by simpa [and_or_left, exists_or] using hverbose)
  · rintro ⟨hconfig, houtput, ⟨pairs, hpairs, hbindings⟩, hsilent, houtline, hverbose, hinput, hknown⟩
    obtain rfl : r.bindings = pairs := hbindings
    refine ⟨by simpa [nothing] using hconfig, by simpa [nothing] using houtput, hpairs, ?_, ?_, ?_,
      hinput, hknown⟩
    · simpa using (hswitch ..).1 hsilent
    · simpa using (hswitch ..).1 houtline
    · simpa [and_or_left, exists_or] using (hswitch ..).1 hverbose

/-- The request that is read from arguments is the one that says what they ask for. -/
theorem read_eq_ok_iff {args : List String} :
    read args = .ok r ↔ ∃ items, ofArguments? args = some items ∧ r.Describes items := by
  simp only [describes_iff]
  exact withArguments_eq_ok_iff

end Request

end StyleExpand
