import StyleExpand.Proofs.Tree
import StyleExpand.Sheet.Parser

/-!
# Rows of tokens and the trees they stand for

In a row of tokens that can be read, every block is closed where it belongs. Reading keeps the open
blocks on a stack; here the same is said by the row alone.

* `Nested row ts` : the row is that of the trees `ts`, block by block;
* `Opened front done frames` : what was read so far, with some blocks still open;
* `nested_of_nest`, `nested_of_parseForest` : the trees that are read are those of the row;
* `Refused`, `refused_of_nest` : why a row is refused;
* `Nested.preorderAll_eq` : the entries of the trees in document order are those of the row.
-/

namespace StyleExpand

open StyleExpand.Tree

/-! ## Balanced rows -/

/-- A row of tokens with all its blocks closed, and its trees. -/
inductive Nested : List Located → List (Tree Entry) → Prop where
  | nil : Nested [] []
  | leaf {p : Position} {c : Content} {row : List Located} {ts : List (Tree Entry)} :
      Nested row ts → Nested (⟨p, .leaf c⟩ :: row) (.node ⟨c, some p⟩ [] :: ts)
  | block {p q : Position} {c : Content} {inner row : List Located} {us ts : List (Tree Entry)} :
      Nested inner us → Nested row ts →
      Nested (⟨p, .opening c⟩ :: (inner ++ ⟨q, .closing⟩ :: row)) (.node ⟨c, some p⟩ us :: ts)

theorem Nested.append {row row' : List Located} {ts us : List (Tree Entry)} (h : Nested row ts)
    (h' : Nested row' us) : Nested (row ++ row') (ts ++ us) := by
  induction h with
  | nil => exact h'
  | leaf _ ih => exact .leaf ih
  | block hinner _ _ ih =>
    rw [List.cons_append, List.append_assoc, List.cons_append]
    exact .block hinner ih

/-! ## Rows with open blocks -/

/-- The tokens in front of a place: `done` are the trees of the innermost open block, the last one
first, and `frames` the open blocks. -/
inductive Opened : List Located → List (Tree Entry) → List Frame → Prop where
  | top {front : List Located} {done : List (Tree Entry)} :
      Nested front done.reverse → Opened front done []
  | block {p : Position} {c : Content} {front inner : List Located} {before done : List (Tree Entry)}
      {frames : List Frame} :
      Opened front before frames → Nested inner done.reverse →
      Opened (front ++ ⟨p, .opening c⟩ :: inner) done (⟨⟨c, some p⟩, before⟩ :: frames)

namespace Opened

variable {front row : List Located} {done : List (Tree Entry)} {frames : List Frame} {f : Frame}

theorem tree {t : Tree Entry} (h : Opened front done frames) (ht : Nested row [t]) :
    Opened (front ++ row) (t :: done) frames := by
  cases h with
  | top hdone =>
    refine .top ?_
    rw [List.reverse_cons]
    exact hdone.append ht
  | block houter hdone =>
    rw [List.append_assoc, List.cons_append]
    refine .block houter ?_
    rw [List.reverse_cons]
    exact hdone.append ht

theorem opening (h : Opened front done frames) (p : Position) (c : Content) :
    Opened (front ++ [⟨p, .opening c⟩]) [] (⟨⟨c, some p⟩, done⟩ :: frames) :=
  .block h .nil

theorem closing (h : Opened front done (f :: frames)) (q : Position) :
    Opened (front ++ [⟨q, .closing⟩]) (.node f.entry done.reverse :: f.before) frames := by
  cases h with
  | block houter hdone =>
    rw [List.append_assoc, List.cons_append]
    exact houter.tree (.block hdone .nil)

end Opened

/-! ## Reading a row -/

/-- A row that is read to its end is that of the trees. -/
theorem nested_of_nest {ending : Ending} {front row : List Located} {done ts : List (Tree Entry)}
    {frames : List Frame} (hopen : Opened front done frames)
    (h : nest ending row done frames = .ok ts) :
    (∃ q, ending = .finished q) ∧ Nested (front ++ row) ts := by
  induction row generalizing front done frames with
  | nil =>
    cases ending with
    | failed error => cases h
    | finished q =>
      cases hopen with
      | top hdone =>
        cases h
        rw [List.append_nil]
        exact ⟨⟨q, rfl⟩, hdone⟩
      | block _ _ => cases h
  | cons l row ih =>
    obtain ⟨p, token⟩ := l
    rw [List.append_cons]
    cases token with
    | leaf c => exact ih (hopen.tree (.leaf .nil)) h
    | opening c => exact ih (hopen.opening p c) h
    | closing =>
      cases frames with
      | nil => cases h
      | cons f frames => exact ih (hopen.closing p) h

/-- Why a row of tokens is refused: it ends in a text that is no token, a block is open at its end, or
a block ends that is not open. -/
inductive Refused (ending : Ending) (row : List Located) : ParseError → Prop where
  | failed {e : ParseError} : ending = .failed e → Refused ending row e
  | unclosed {q : Position} : ending = .finished q → Refused ending row ⟨q, .unclosedBlock⟩
  | unexpected {p : Position} : ⟨p, .closing⟩ ∈ row → Refused ending row ⟨p, .unexpectedClose⟩

theorem Refused.cons {ending : Ending} {row : List Located} {e : ParseError} (l : Located)
    (h : Refused ending row e) : Refused ending (l :: row) e := by
  cases h with
  | failed h => exact .failed h
  | unclosed h => exact .unclosed h
  | unexpected h => exact .unexpected (List.mem_cons_of_mem l h)

theorem nested_of_parseForest {cs : List Char} {ts : List (Tree Entry)}
    (h : parseForest cs = .ok ts) :
    ∃ row q, Token.scan .start cs = (row, .finished q) ∧ Nested row ts := by
  unfold parseForest at h
  generalize Token.scan .start cs = scanned at h
  obtain ⟨row, ending⟩ := scanned
  obtain ⟨⟨q, rfl⟩, hnested⟩ := nested_of_nest (.top .nil) h
  exact ⟨row, q, rfl, hnested⟩

/-- A stylesheet that is read is made from the trees of its source. -/
theorem Sheet.exists_forest_of_parse {source : String} {s : Sheet} (h : parse source = .ok s) :
    ∃ ts, parseForest source.toList = .ok ts ∧ ofForest ts = s := by
  rw [parse] at h
  cases hts : parseForest source.toList with
  | error e =>
    rw [hts] at h
    cases h
  | ok ts =>
    rw [hts] at h
    exact ⟨ts, rfl, Except.ok.inj h⟩

/-! ## Document order -/

def Located.entry? : Located → Option Entry
  | ⟨p, .opening c⟩ => some ⟨c, some p⟩
  | ⟨_, .closing⟩ => none
  | ⟨p, .leaf c⟩ => some ⟨c, some p⟩

theorem Nested.preorderAll_eq {row : List Located} {ts : List (Tree Entry)} (h : Nested row ts) :
    preorderAll ts = row.filterMap Located.entry? := by
  induction h with
  | nil => rfl
  | leaf _ ih => simp [Located.entry?, ih]
  | block _ _ ihinner ih => simp [List.filterMap_cons, Located.entry?, ihinner, ih]

end StyleExpand
