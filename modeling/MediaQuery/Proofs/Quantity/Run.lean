import MediaQuery.Proofs.Cursor.Place
import MediaQuery.Quantity.Reader

/-!
# Runs of readers

Values can be read from one text one after the other, with questions in between whether the text
is exhausted. A reader takes the next token even if it refuses it, so a run only goes forward, and
ends where no token is left. The main statement says what holds at every place that a run comes
to, for the next step and for all that may follow.
-/

namespace MediaQuery

namespace Reader

variable {Value Image : Type} {read : Reader Value}

/-- A reader with its values taken for others. -/
def map (image : Value → Image) (read : Reader Value) : Reader Image :=
  fun cursor => ((read cursor).1.map image, (read cursor).2)

/-- Tries to read a value, and goes back if there is none. -/
def attempt (read : Reader Value) (cursor : Cursor) : Option Value × Cursor :=
  match read cursor with
  | (.ok value, after) => (some value, after)
  | (.error _, _) => (none, cursor)

/-- Whether a reader passes the next token, and fails where there is none. -/
def Advances (read : Reader Value) : Prop :=
  ∀ cursor, (read cursor).2.Passes cursor ∨
    cursor.settle.rest = [] ∧ read cursor = (.error .unexpectedToken, cursor.settle)

theorem advances_ofToken (read : Lexeme → Except ReadError Value) : (ofToken read).Advances := by
  intro cursor
  unfold ofToken
  rcases cursor.passes_or_ended with ⟨lexeme, after, next, passes⟩ | ⟨nothing, next⟩
  · rw [next]
    exact Or.inl passes
  · rw [next]
    exact Or.inr ⟨nothing, rfl⟩

theorem Advances.map (advances : read.Advances) (image : Value → Image) :
    (read.map image).Advances := by
  intro cursor
  rcases advances cursor with passes | ⟨nothing, failed⟩
  · exact Or.inl passes
  · exact Or.inr ⟨nothing, by rw [Reader.map, failed]; rfl⟩

theorem Advances.follows (advances : read.Advances) (cursor : Cursor) :
    (read cursor).2.Follows cursor := by
  rcases advances cursor with passes | ⟨_, failed⟩
  · exact passes.follows
  · rw [failed]
    exact cursor.follows_settle

theorem follows_denominator (cursor : Cursor) : (denominator cursor).2.Follows cursor := by
  unfold denominator
  rcases cursor.passes_or_ended with ⟨lexeme, after, next, passes⟩ | ⟨_, next⟩
  · simp only [next]
    split
    · exact ((advances_ofToken _).follows after).trans passes.follows
    · exact passes.follows
  · rw [next]
    exact cursor.follows_settle

theorem advances_ratio : ratio.Advances := by
  intro cursor
  have advances : number.Advances := advances_ofToken _
  unfold ratio
  rcases taken : number cursor with ⟨error | numerator, afterNumerator⟩
  · rcases advances cursor with passes | ⟨nothing, failed⟩
    · rw [taken] at passes
      exact Or.inl passes
    · rw [taken, Prod.mk.injEq, Except.error.injEq] at failed
      exact Or.inr ⟨nothing, by rw [failed.1, failed.2]⟩
  · left
    have passes : afterNumerator.Passes cursor := by
      rcases advances cursor with passes | ⟨_, failed⟩
      · rwa [taken] at passes
      · simp [taken] at failed
    have follows := follows_denominator afterNumerator
    simp only
    split
    · rename_i denominator after takenToo
      rw [takenToo] at follows
      exact passes.trans_follows follows
    · exact passes

end Reader

/-- The kinds of values that can be read. -/
inductive ValueKind where
  | name
  | integer
  | number
  | ratio
  | length
  | resolution
  deriving DecidableEq, Repr

/-- A value of one of the kinds. -/
inductive ReadValue where
  | name (name : String)
  | integer (number : Int)
  | number (number : Float)
  | ratio (ratio : Ratio)
  | length (length : Length)
  | resolution (resolution : Resolution)

namespace ValueKind

/-- The reader of a kind of values. -/
def read : ValueKind → Reader ReadValue
  | .name => Reader.name.map .name
  | .integer => Reader.integer.map .integer
  | .number => Reader.number.map .number
  | .ratio => Reader.ratio.map .ratio
  | .length => Reader.length.map .length
  | .resolution => Reader.resolution.map .resolution

theorem advances_read (kind : ValueKind) : kind.read.Advances := by
  cases kind with
  | name => exact (Reader.advances_ofToken _).map _
  | integer => exact (Reader.advances_ofToken _).map _
  | number => exact (Reader.advances_ofToken _).map _
  | ratio => exact Reader.advances_ratio.map _
  | length => exact ((Reader.advances_ofToken _).map _).map _
  | resolution => exact ((Reader.advances_ofToken _).map _).map _

end ValueKind

/-- A step of a run: a value is read, or it is asked whether the text is exhausted. -/
inductive Step where
  | value (kind : ValueKind)
  | question
  deriving DecidableEq, Repr

/-- What a step yields. -/
inductive Step.Answer where
  | value (result : Except ReadError ReadValue)
  | question (exhausted : Bool)

namespace Step

/-- What a step yields at a place, and the place after it. -/
def run (cursor : Cursor) : Step → Answer × Cursor
  | value kind => (.value (kind.read cursor).1, (kind.read cursor).2)
  | question => (.question cursor.exhausted, cursor)

/-- What the steps of a run yield, each with the position after it, and the place at the end. -/
def runAll (cursor : Cursor) : List Step → List (Answer × Nat) × Cursor
  | [] => ([], cursor)
  | step :: rest =>
      let (answer, after) := step.run cursor
      let (answers, last) := runAll after rest
      ((answer, after.position) :: answers, last)

/-- What a step yields where the text is exhausted. -/
def lastAnswer : Step → Answer
  | value _ => .value (.error .unexpectedToken)
  | question => .question true

theorem runAll_cons (cursor : Cursor) (step : Step) (rest : List Step) :
    runAll cursor (step :: rest) =
      (((step.run cursor).1, (step.run cursor).2.position) :: (runAll (step.run cursor).2 rest).1,
        (runAll (step.run cursor).2 rest).2) :=
  rfl

/-- No step goes back. -/
theorem follows_run (cursor : Cursor) (step : Step) : (step.run cursor).2.Follows cursor := by
  cases step with
  | value kind => exact kind.advances_read.follows cursor
  | question => exact ⟨rfl, List.suffix_refl _⟩

theorem follows_runAll (cursor : Cursor) (steps : List Step) :
    (runAll cursor steps).2.Follows cursor := by
  induction steps generalizing cursor with
  | nil => exact ⟨rfl, List.suffix_refl _⟩
  | cons step rest ih => exact (ih _).trans (step.follows_run cursor)

/-- Where the text is exhausted, a step says so and leaves it exhausted. -/
theorem run_of_exhausted {cursor : Cursor} (exhausted : cursor.exhausted = true) (step : Step) :
    (step.run cursor).1 = step.lastAnswer ∧ (step.run cursor).2.exhausted = true := by
  cases step with
  | value kind =>
      have nothing := cursor.exhausted_iff_settle.mp exhausted
      rcases kind.advances_read cursor with ⟨_, _, _, ahead, _⟩ | ⟨_, failed⟩
      · rw [nothing] at ahead
        simp at ahead
      · rw [run, failed]
        refine ⟨rfl, (Cursor.exhausted_iff_settle _).mpr ?_⟩
        apply List.suffix_nil.mp
        rw [← nothing]
        exact Cursor.settle_rest_suffix _
  | question => exact ⟨congrArg Answer.question exhausted, exhausted⟩

theorem runAll_of_exhausted {cursor : Cursor} (exhausted : cursor.exhausted = true)
    (steps : List Step) : (runAll cursor steps).1.map Prod.fst = steps.map lastAnswer := by
  induction steps generalizing cursor with
  | nil => rfl
  | cons step rest ih =>
      rcases run_of_exhausted exhausted step with ⟨answer, remains⟩
      rw [runAll_cons, List.map_cons, List.map_cons, ih remains, answer]

end Step

/-- What holds at a place of a text for all steps that may follow. -/
structure Cursor.Forward (text : String) (place : Cursor) : Prop where
  within : place.position ≤ text.utf8ByteSize
  boundary : String.Pos.Raw.IsValid text ⟨place.position⟩
  monotone : ∀ steps, place.position ≤ (Step.runAll place steps).2.position
  /-- A question changes neither the place nor what later steps yield, and where. -/
  question : ∀ steps, Step.runAll place (.question :: steps) =
    ((.question place.exhausted, place.position) :: (Step.runAll place steps).1,
      (Step.runAll place steps).2)
  /-- A value takes a token. -/
  success : ∀ kind value, (ValueKind.read kind place).1 = .ok value →
    (kind.read place).2.Passes place
  /-- What is no value takes a token too, unless there is none left to take. -/
  failure : ∀ kind error, (ValueKind.read kind place).1 = .error error →
    (kind.read place).2.Passes place ∨ ∀ lexeme ∈ place.pastBlock, lexeme.isBlank = true
  /-- To take a token is to go forward. -/
  progress : ∀ kind, (ValueKind.read kind place).2.Passes place →
    place.position < (kind.read place).2.position
  exhausted : place.exhausted = true →
    ∀ steps, (Step.runAll place steps).1.map Prod.fst = steps.map Step.lastAnswer

theorem Cursor.IsIn.forward {text : String} {place : Cursor} (isIn : place.IsIn text) :
    place.Forward text where
  within := by
    have whole := isIn.position_add
    omega
  boundary := isIn.isValid_position
  monotone := fun steps => position_mono isIn (Step.follows_runAll place steps)
  question := fun _ => rfl
  success := by
    intro kind value read
    rcases kind.advances_read place with passes | ⟨_, failed⟩
    · exact passes
    · simp [failed] at read
  failure := by
    intro kind error _
    rcases kind.advances_read place with passes | ⟨nothing, _⟩
    · exact Or.inl passes
    · exact Or.inr (place.exhausted_iff_forall.mp (place.exhausted_iff_settle.mpr nothing))
  progress := fun _ passes => position_lt isIn passes
  exhausted := fun exhausted => Step.runAll_of_exhausted exhausted

namespace Step

/-- Every run over a text goes forward at every place that it comes to. -/
theorem forward_runAll (text : String) (steps : List Step) :
    (runAll (Cursor.start text) steps).2.Forward text :=
  ((follows_runAll _ steps).isIn (Cursor.IsIn.start text)).forward

/-- A refused function is passed as a whole by the next reader, and no question changes that. -/
example : (runAll (Cursor.start "f(a b) c ")
    [.value .name, .question, .value .name, .question]).1.map Prod.snd = [2, 2, 8, 8] := by
  decide

end Step

end MediaQuery
