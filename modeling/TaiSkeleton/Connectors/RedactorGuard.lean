import Mathlib.Data.List.Infix
import TaiSkeleton.Connectors.MetaLogRedactor
import TaiSkeleton.Lib.Except
import TaiSkeleton.Lib.PercentFormat

/-!
# The guard of the redactor

A record is rendered and redacted only when a marker stands in its template or in the text of its
arguments. A marker that comes about in the rendering is missed there.
-/

namespace TaiSkeleton.Connectors

open Lib.PercentFormat

/-! ## Records -/

/-- What the redactor reads and writes of a `LogRecord`: the text of its message, its arguments
where there are some, and its exception, as it renders and as it was rendered. -/
structure LogRecord where
  msg : Text
  args : Option Args
  excInfo : Option Text := none
  excText : Option Text := none
  stackInfo : Option Text := none

/-- The redaction raises, or does not return. -/
inductive Fault where
  | raises
  | hangs
deriving DecidableEq

/-- `str(args)` -/
def argsStr : Args → Text
  | .tuple [arg] => '(' :: arg.repr ++ [',', ')']
  | .tuple args => '(' :: [',', ' '].intercalate (args.map Arg.repr) ++ [')']
  | .mapping self _ => self.str

namespace LogRecord

/-- The arguments count unless they are an empty tuple. -/
def argsText (record : LogRecord) : Text :=
  match record.args with
  | none | some (.tuple []) => []
  | some args => argsStr args

/-- `getMessage` -/
def getMessage (record : LogRecord) : Option Text :=
  match record.args with
  | none | some (.tuple []) => some record.msg
  | some args => format record.msg args

end LogRecord

/-- A text of the record's traceback with its secrets masked. -/
def redactAttached (metaKey : Text) (text : Option Text) : Except Fault (Option Text) :=
  match text with
  | some text =>
    if hasMarker text metaKey then
      match redactText text metaKey with
      | some redacted => .ok (some redacted)
      | none => .error .hangs
    else .ok none
  | none => .ok none

/-- The message of `_redact_record`. -/
def redactMessage (metaKey : Text) (record : LogRecord) : Except Fault LogRecord :=
  if hasMarker record.msg metaKey || hasMarker record.argsText metaKey then
    match record.getMessage with
    | none => .error .raises
    | some message =>
      match redactText message metaKey with
      | some redacted => .ok { record with msg := redacted, args := none }
      | none => .error .hangs
  else .ok record

/-- `_redact_record` -/
def redactRecord (metaKey : Text) (record : LogRecord) : Except Fault LogRecord := do
  let record ← redactMessage metaKey record
  let excText ← redactAttached metaKey (record.excText.or record.excInfo)
  let stackInfo ← redactAttached metaKey record.stackInfo
  return { record with
    excText := excText.or record.excText
    stackInfo := stackInfo.or record.stackInfo }

/-! ## What the guard sees -/

/-- A marker stands in the template, or in the text of the arguments. -/
def LogRecord.Shown (metaKey : Text) (record : LogRecord) : Prop :=
  hasMarker record.msg metaKey = true ∨ hasMarker record.argsText metaKey = true

instance (metaKey : Text) (record : LogRecord) : Decidable (record.Shown metaKey) :=
  inferInstanceAs (Decidable (_ ∨ _))

section

variable {metaKey message redacted : Text} {record record' : LogRecord}

theorem contains_iff {part text : Text} : contains part text = true ↔ part <:+: text := by
  simp only [contains, List.any_eq_true, List.mem_tails, List.isPrefixOf_iff_prefix,
    List.infix_iff_prefix_suffix]
  exact ⟨fun ⟨tail, hsuffix, hprefix⟩ => ⟨tail, hprefix, hsuffix⟩,
    fun ⟨tail, hprefix, hsuffix⟩ => ⟨tail, hsuffix, hprefix⟩⟩

/-- A text that is a part of another shows its markers in it. -/
theorem hasMarker_of_part {part text : Text} (h : part <:+: text)
    (hmarker : hasMarker part metaKey = true) : hasMarker text metaKey = true := by
  simp only [hasMarker, Bool.or_eq_true, List.any_eq_true, contains_iff] at hmarker ⊢
  obtain hkey | ⟨marker, hmem, hmarker⟩ := hmarker
  · exact .inl (hkey.trans h)
  · exact .inr ⟨marker, hmem, hmarker.trans h⟩

theorem mem_intersperse {α : Type} {a sep : α} {l : List α} (h : a ∈ l) : a ∈ l.intersperse sep := by
  induction l with
  | nil => cases h
  | cons b l ih =>
    cases l with
    | nil => exact h
    | cons c l =>
      rw [List.intersperse_cons_cons]
      obtain rfl | h := List.mem_cons.mp h
      · exact List.mem_cons_self
      · exact List.mem_cons_of_mem _ (List.mem_cons_of_mem _ (ih h))

/-- The rest of `_redact_record` leaves the message alone. -/
theorem redactRecord_message (h : redactRecord metaKey record = .ok record') :
    ∃ record₁, redactMessage metaKey record = .ok record₁ ∧ record'.msg = record₁.msg ∧
      record'.args = record₁.args := by
  obtain ⟨record₁, hmessage, h⟩ := Lib.bind_eq_ok.mp h
  obtain ⟨excText, -, h⟩ := Lib.bind_eq_ok.mp h
  obtain ⟨stackInfo, -, h⟩ := Lib.bind_eq_ok.mp h
  obtain rfl := Except.ok.inj h
  exact ⟨record₁, hmessage, rfl, rfl⟩

theorem redactMessage_shown (hshown : record.Shown metaKey)
    (hmessage : record.getMessage = some message)
    (hredacted : redactText message metaKey = some redacted) :
    redactMessage metaKey record = .ok { record with msg := redacted, args := none } := by
  unfold redactMessage
  rw [if_pos (Bool.or_eq_true _ _ ▸ hshown), hmessage]
  simp only [hredacted]

theorem redactMessage_not_shown (hshown : ¬record.Shown metaKey) :
    redactMessage metaKey record = .ok record := by
  unfold redactMessage
  rw [if_neg fun h => hshown ((Bool.or_eq_true _ _).mp h)]

theorem repr_part_argsText {args : List Arg} {arg : Arg}
    (heq : record.args = some (.tuple args)) (harg : arg ∈ args) :
    arg.repr <:+: record.argsText := by
  unfold LogRecord.argsText
  rw [heq]
  match args, harg with
  | [_], harg =>
    obtain rfl := List.mem_singleton.mp harg
    exact ⟨['('], [',', ')'], rfl⟩
  | first :: second :: rest, harg =>
    have hjoined : arg.repr <:+: [',', ' '].intercalate
        ((first :: second :: rest).map Arg.repr) :=
      List.infix_of_mem_flatten (mem_intersperse (List.mem_map_of_mem harg))
    obtain ⟨before, after, h⟩ := hjoined
    refine ⟨'(' :: before, after ++ [')'], ?_⟩
    show '(' :: before ++ arg.repr ++ (after ++ [')']) =
      '(' :: [',', ' '].intercalate ((first :: second :: rest).map Arg.repr) ++ [')']
    rw [← h]
    simp

/-- Where the guard sees no marker, none stands in a literal run of the template, nor in the `repr`
of an argument: it is put together, escaped or only shown by the rendering. -/
theorem hidden_of_not_shown (h : ¬record.Shown metaKey) :
    (∀ fuel supply found run, pieces fuel record.msg supply = some found →
      .literal run ∈ found → hasMarker run metaKey = false) ∧
    ∀ args arg, record.args = some (.tuple args) → arg ∈ args →
      hasMarker arg.repr metaKey = false := by
  obtain ⟨hmsg, hargs⟩ := not_or.mp h
  constructor
  · intro fuel supply found run hfound hrun
    exact Bool.eq_false_iff.mpr fun hmarker =>
      hmsg (hasMarker_of_part (literal_part hfound hrun) hmarker)
  · intro args arg heq harg
    refine Bool.eq_false_iff.mpr fun hmarker => hargs (hasMarker_of_part ?_ hmarker)
    exact repr_part_argsText heq harg

end

/-- A record whose argument shows the marker of its secret. -/
def shownRecord : LogRecord where
  msg := "cfg %s".toList
  args := some (.tuple [{
    str := "\x7b'headers': \x7b'a': 'b'\x7d\x7d".toList
    repr := "\x7b'headers': \x7b'a': 'b'\x7d\x7d".toList
    ascii := "\x7b'headers': \x7b'a': 'b'\x7d\x7d".toList }])

/-- A record whose template and argument make up the marker together. -/
def splitRecord : LogRecord where
  msg := "\x7b\"head%s\": \x7b\"a\": \"b\"\x7d\x7d".toList
  args := some (.tuple [{
    str := "ers".toList
    repr := "'ers'".toList
    ascii := "'ers'".toList }])

/-- The default of `meta_token_key`. -/
def metaTokenKey : Text := "tai_hub.access_token".toList

def shownMessage : Text := "cfg \x7b'headers': \x7b'a': 'b'\x7d\x7d".toList

def shownRedacted : Text := "cfg \x7b'headers': \x7b'a': \"**********\"\x7d\x7d".toList

end TaiSkeleton.Connectors
