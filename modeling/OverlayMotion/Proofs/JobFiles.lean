import OverlayMotion.Job.File
import OverlayMotion.Proofs.Preparation
import OverlayMotion.Proofs.TomlReaders

/-! How loading a job file fails. What is wrong with the file, with its document or with the job
is told as a fault of the job, with two exceptions that the readers leave as they are: bytes that
are no text, and integers of more digits than an integer can have. -/
namespace OverlayMotion

namespace Json

theorem digitUnnamed {c : Char} (digit : c.isDigit) (cs : List Char) :
    readNamed (c :: cs) = none := by
  have letters : ['n', 't', 'f', 'N', 'I', '-'].all (!·.isDigit) = true := rfl
  have others : ∀ d ∈ ['n', 't', 'f', 'N', 'I', '-'], d ≠ c := by
    intro d among same
    have letter := List.all_eq_true.mp letters d among
    rw [same, digit] at letter
    contradiction
  simp only [List.forall_mem_cons] at others
  simp [readNamed, namedValues, after?, others]

theorem longRunRefused {ds : List Char} (digits : ∀ c ∈ ds, c.isDigit)
    (leading : ds.head? ≠ some '0') (long : digitLimit < ds.length) (negative : Bool) :
    readNumber negative ds = .error .integerTooLong := by
  have run : digitRun ds = (ds, []) := by
    rw [digitRun, List.span_eq_takeWhile_dropWhile, List.takeWhile_eq_self_iff.mpr digits,
      List.dropWhile_eq_nil_iff.mpr digits]
  unfold readNumber
  split
  next whole rest parted =>
    split at parted
    · contradiction
    · rw [run] at parted
      cases parted
      have some : ds ≠ [] := List.ne_nil_of_length_pos (Nat.zero_lt_of_lt long)
      simp [some, fractionPart, exponentPart, long]

theorem longNumberRefused {ds : List Char} (digits : ∀ c ∈ ds, c.isDigit)
    (leading : ds.head? ≠ some '0') (long : digitLimit < ds.length) :
    read ds = .error .integerTooLong := by
  cases ds with
  | nil => exact absurd long (Nat.not_lt_zero _)
  | cons c cs =>
    have first := digits c List.mem_cons_self
    have visible : skip (c :: cs) = c :: cs := by
      rw [skip, List.dropWhile_cons_of_neg]
      intro space
      have blank : c = ' ' ∨ c = '\t' ∨ c = '\n' ∨ c = '\r' := by
        simpa [isSpace, or_assoc] using space
      obtain rfl | rfl | rfl | rfl := blank <;> contradiction
    have value (n : Nat) : readValue (n + 1) (c :: cs) = .error .integerTooLong := by
      unfold readValue
      rw [digitUnnamed first]
      dsimp only
      split
      case h_5 => exact longRunRefused digits leading long false
      all_goals
        next same =>
        cases same
        contradiction
    rw [read, visible, value]
    rfl

end Json

namespace Job

theorem documentOverlong {path : Path} {source : String}
    (refused : readDocument path source = .error .integerTooLong) : Overlong source.toList := by
  unfold readDocument at refused
  split at refused
  · exact Toml.readOverlong refused
  · exact Json.readOverlong refused

theorem ofBytesFails (path : Path) (content : ByteArray) :
    (∃ job, ofBytes path content = .ok job) ∨
      (∃ fault, ofBytes path content = .error (.job fault)) ∨
      (ofBytes path content = .error .notText ∧ String.fromUTF8? content = none) ∨
      (ofBytes path content = .error .unreadableNumber ∧
        ∃ source, String.fromUTF8? content = some source ∧ Overlong source.toList) := by
  unfold ofBytes
  cases text : String.fromUTF8? content with
  | none => exact .inr (.inr (.inl ⟨rfl, rfl⟩))
  | some source =>
    dsimp only
    cases document : readDocument path source with
    | error e =>
      cases e with
      | malformed => exact .inr (.inl ⟨_, rfl⟩)
      | integerTooLong =>
        exact .inr (.inr (.inr ⟨rfl, source, rfl, documentOverlong document⟩))
    | ok d =>
      dsimp only
      cases check d with
      | ok job => exact .inl ⟨_, rfl⟩
      | wrong problems => exact .inr (.inl ⟨_, rfl⟩)

theorem ofBytesNoText {path : Path} {content : ByteArray}
    (broken : String.fromUTF8? content = none) : ofBytes path content = .error .notText := by
  rw [ofBytes, broken]

example (path : Path) : ofBytes path ⟨#[0xff]⟩ = .error .notText :=
  ofBytesNoText (by decide +kernel)

theorem loadOutcome (path : Path) (h : Host) : (load path h).1 =
    match h.files.read path with
    | .error fault => .error (.job (.unreadable path fault))
    | .ok content => ofBytes path content := by
  unfold load
  rw [Session.bindOutcome]
  simp only [Session.host, okBind]
  cases h.files.read path <;> rfl

theorem longNumberEscapes {path : Path} (other : isToml path = false) {source : String}
    (digits : ∀ c ∈ source.toList, c.isDigit) (leading : source.toList.head? ≠ some '0')
    (long : digitLimit < source.toList.length) :
    ofBytes path source.toUTF8 = .error .unreadableNumber := by
  have refused : readDocument path source = .error .integerTooLong := by
    rw [readDocument, other]
    exact Json.longNumberRefused digits leading long
  have text : String.fromUTF8? source.toUTF8 = some source := dif_pos source.isValidUTF8
  rw [ofBytes, text]
  simp only [refused]

/-- Loading a job file gives a job or tells a fault of it, unless there is a file and it holds
no text, or its text has an integer of more digits than an integer can have. A path with a NUL
character is not represented: opening it raises an error of its own, which `Files.read` does
not have; here it is a path like others, at which there may be a file or none. -/
theorem loadFails (path : Path) (h : Host) :
    ((∃ job, (load path h).1 = .ok job) ∨ (∃ fault, (load path h).1 = .error (.job fault)) ∨
      ((load path h).1 = .error .notText ∧
        ∃ content, h.files.read path = .ok content ∧ String.fromUTF8? content = none) ∨
      ((load path h).1 = .error .unreadableNumber ∧ ∃ content source,
        h.files.read path = .ok content ∧ String.fromUTF8? content = some source ∧
          Overlong source.toList)) ∧
    ∀ content, h.files.read path = .ok content → String.fromUTF8? content = none →
      (load path h).1 = .error .notText := by
  rw [loadOutcome]
  cases h.files.read path with
  | error fault => exact ⟨.inr (.inl ⟨_, rfl⟩), nofun⟩
  | ok content =>
    refine ⟨?_, fun given stored broken => ?_⟩
    · obtain read | told | ⟨failed, broken⟩ | ⟨failed, source, text, long⟩ :=
        ofBytesFails path content
      · exact .inl read
      · exact .inr (.inl told)
      · exact .inr (.inr (.inl ⟨failed, content, rfl, broken⟩))
      · exact .inr (.inr (.inr ⟨failed, content, source, rfl, text, long⟩))
    · cases stored
      exact ofBytesNoText broken

end Job

end OverlayMotion
