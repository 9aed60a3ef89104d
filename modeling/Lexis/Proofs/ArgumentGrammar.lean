import Lexis.CommandLine.Request
import Mathlib.Data.List.Induction

/-!
# The grammar of the arguments

Arguments begin with parts: codes behind their options, in any number, and one path at most. What
stands behind the parts decides which request is made, or why none is.
-/

namespace Lexis.Request

inductive Part where
  | evaluate (option code : String)
  | file (path : String)
  deriving Repr, DecidableEq

namespace Part

def arguments : Part → List String
  | .evaluate option code => [option, code]
  | .file path => [path]

/-- A code may be any argument, even one that looks like an option; a path may be empty. -/
def WellFormed : Part → Prop
  | .evaluate option _ => option = "-e" ∨ option = "--eval"
  | .file path => path.toList.head? ≠ some '-'

def code? : Part → Option String
  | .evaluate _ code => some code
  | .file _ => none

def path? : Part → Option String
  | .evaluate .. => none
  | .file path => some path

def codes (parts : List Part) : List String := parts.filterMap code?

def paths (parts : List Part) : List String := parts.filterMap path?

def line (parts : List Part) : List String := parts.flatMap arguments

@[simp] theorem codes_nil : codes [] = [] := rfl

@[simp] theorem paths_nil : paths [] = [] := rfl

@[simp] theorem line_nil : line [] = [] := rfl

@[simp] theorem codes_append (a b : List Part) : codes (a ++ b) = codes a ++ codes b :=
  List.filterMap_append

@[simp] theorem paths_append (a b : List Part) : paths (a ++ b) = paths a ++ paths b :=
  List.filterMap_append

@[simp] theorem line_append (a b : List Part) : line (a ++ b) = line a ++ line b :=
  List.flatMap_append

@[simp] theorem codes_evaluate (option code : String) (parts : List Part) :
    codes (.evaluate option code :: parts) = code :: codes parts := rfl

@[simp] theorem codes_file (path : String) (parts : List Part) :
    codes (.file path :: parts) = codes parts := rfl

@[simp] theorem paths_evaluate (option code : String) (parts : List Part) :
    paths (.evaluate option code :: parts) = paths parts := rfl

@[simp] theorem paths_file (path : String) (parts : List Part) :
    paths (.file path :: parts) = path :: paths parts := rfl

@[simp] theorem line_cons (part : Part) (parts : List Part) :
    line (part :: parts) = part.arguments ++ line parts := rfl

theorem eq_nil_of_codes_paths {parts : List Part} (hcodes : codes parts = [])
    (hpaths : paths parts = []) : parts = [] := by
  cases parts with
  | nil => rfl
  | cons part parts => cases part <;> simp at hcodes hpaths

theorem eq_singleton_of_codes_paths {parts : List Part} {path : String} (hcodes : codes parts = [])
    (hpaths : paths parts = [path]) : parts = [.file path] := by
  cases parts with
  | nil => contradiction
  | cons part parts =>
      cases part with
      | evaluate option code => simp at hcodes
      | file first =>
          simp only [codes_file, paths_file, List.cons.injEq] at hcodes hpaths
          rw [hpaths.1, eq_nil_of_codes_paths hcodes hpaths.2]

theorem exists_last_of_codes {parts : List Part} {code : String} (hpaths : paths parts = [])
    (hcode : (codes parts).getLast? = some code) :
    ∃ front option, parts = front ++ [.evaluate option code] := by
  rcases parts.eq_nil_or_concat with rfl | ⟨front, last, rfl⟩
  · contradiction
  · rw [List.concat_eq_append] at hpaths hcode ⊢
    cases last with
    | evaluate option other =>
        have hsame : other = code := by
          rw [codes_append, codes_evaluate, List.getLast?_append] at hcode
          exact Option.some.inj hcode
        exact ⟨front, option, by rw [hsame]⟩
    | file path => simp at hpaths

end Part

open Lexis.Request.Part

/-- Parts of which at most one is a path. -/
structure IsSequence (parts : List Part) : Prop where
  form : ∀ part ∈ parts, part.WellFormed
  onePath : (paths parts).length ≤ 1

/-- The argument asks for neither help nor the version, and a part that begins with it cannot go on
with the sequence. -/
structure Stops (parts : List Part) (argument : String) : Prop where
  not_help : argument ≠ "-h" ∧ argument ≠ "--help"
  not_version : argument ≠ "-v" ∧ argument ≠ "--version"
  no_part : ∀ part later, part.arguments = argument :: later → ¬ IsSequence (parts ++ [part])

/-- Which arguments make which request. -/
def Asks (arguments : List String) : Request → Prop
  | .prompt => arguments = []
  | .file path => arguments = [path] ∧ (Part.file path).WellFormed
  | .evaluate code => ∃ parts option, IsSequence (parts ++ [.evaluate option code]) ∧
      paths parts = [] ∧ arguments = line (parts ++ [.evaluate option code])
  | .help => ∃ parts flag later, IsSequence parts ∧ (flag = "-h" ∨ flag = "--help") ∧
      arguments = line parts ++ flag :: later
  | .version => ∃ parts flag later, IsSequence parts ∧ (flag = "-v" ∨ flag = "--version") ∧
      arguments = line parts ++ flag :: later

/-- Which arguments make no request, and what is said of them: the argument at which a sequence of
parts stops, the option that has no code, or that there is a code as well as a path. -/
inductive Refuses : List String → String → Prop where
  | option {parts : List Part} {argument : String} (later : List String)
      (sequence : IsSequence parts) (stops : Stops parts argument)
      (dash : argument.toList.head? = some '-') :
      Refuses (line parts ++ argument :: later) ("Unknown option: " ++ argument)
  | path {parts : List Part} {argument : String} (later : List String)
      (sequence : IsSequence parts) (stops : Stops parts argument)
      (dash : argument.toList.head? ≠ some '-') :
      Refuses (line parts ++ argument :: later) ("Unexpected argument: " ++ argument)
  | missingCode {parts : List Part} {option : String} (sequence : IsSequence parts)
      (evaluates : option = "-e" ∨ option = "--eval") :
      Refuses (line parts ++ [option]) "-e requires an argument"
  | codeAndFile {parts : List Part} (sequence : IsSequence parts) (code : codes parts ≠ [])
      (path : paths parts ≠ []) : Refuses (line parts) "-e cannot be combined with a file"

/-! ## Sequences -/

theorem isSequence_nil : IsSequence [] := ⟨List.forall_mem_nil _, Nat.zero_le 1⟩

theorem IsSequence.paths_eq {parts : List Part} {path : String} (sequence : IsSequence parts)
    (h : (paths parts).getLast? = some path) : paths parts = [path] := by
  obtain ⟨front, hpaths⟩ := List.getLast?_eq_some_iff.mp h
  have onePath := sequence.onePath
  rw [hpaths, List.length_append, List.length_singleton] at onePath
  rw [hpaths, List.eq_nil_of_length_eq_zero (by omega : front.length = 0), List.nil_append]

theorem isSequence_concat_evaluate {parts : List Part} {option code : String} :
    IsSequence (parts ++ [.evaluate option code]) ↔
      IsSequence parts ∧ (Part.evaluate option code).WellFormed := by
  constructor
  · rintro ⟨form, onePath⟩
    rw [List.forall_mem_append, List.forall_mem_singleton] at form
    rw [paths_append] at onePath
    exact ⟨⟨form.1, by simpa using onePath⟩, form.2⟩
  · rintro ⟨⟨form, onePath⟩, hpart⟩
    refine ⟨?_, by simpa using onePath⟩
    rw [List.forall_mem_append, List.forall_mem_singleton]
    exact ⟨form, hpart⟩

theorem isSequence_concat_file {parts : List Part} {path : String} :
    IsSequence (parts ++ [.file path]) ↔
      IsSequence parts ∧ (Part.file path).WellFormed ∧ paths parts = [] := by
  constructor
  · rintro ⟨form, onePath⟩
    rw [List.forall_mem_append, List.forall_mem_singleton] at form
    have hlength : (paths parts).length = 0 := by simpa using onePath
    exact ⟨⟨form.1, by omega⟩, form.2, List.eq_nil_of_length_eq_zero hlength⟩
  · rintro ⟨⟨form, onePath⟩, hpart, hpaths⟩
    refine ⟨?_, by simp [hpaths]⟩
    rw [List.forall_mem_append, List.forall_mem_singleton]
    exact ⟨form, hpart⟩

theorem stops_iff {parts : List Part} {argument : String} (sequence : IsSequence parts) :
    Stops parts argument ↔
      (argument ≠ "-h" ∧ argument ≠ "--help") ∧ (argument ≠ "-v" ∧ argument ≠ "--version") ∧
        (argument ≠ "-e" ∧ argument ≠ "--eval") ∧
        (argument.toList.head? ≠ some '-' → paths parts ≠ []) := by
  constructor
  · rintro ⟨not_help, not_version, no_part⟩
    have noEvaluate := fun h => no_part (.evaluate argument "") [""] rfl
      (isSequence_concat_evaluate.mpr ⟨sequence, h⟩)
    refine ⟨not_help, not_version, not_or.mp noEvaluate, fun dash hpaths => ?_⟩
    exact no_part (.file argument) [] rfl (isSequence_concat_file.mpr ⟨sequence, dash, hpaths⟩)
  · rintro ⟨not_help, not_version, not_evaluate, second⟩
    refine ⟨not_help, not_version, fun part later hpart hsequence => ?_⟩
    cases part with
    | evaluate option code =>
        obtain rfl : option = argument := (List.cons.inj hpart).1
        exact not_or.mpr not_evaluate (isSequence_concat_evaluate.mp hsequence).2
    | file path =>
        obtain rfl : path = argument := (List.cons.inj hpart).1
        obtain ⟨-, dash, hpaths⟩ := isSequence_concat_file.mp hsequence
        exact second dash hpaths

/-! ## Reading -/

theorem isOption_iff {argument : String} :
    isOption argument ↔ argument.toList.head? = some '-' := beq_iff_eq

theorem read_cons (code path : Option String) (argument : String) (later : List String) :
    read code path (argument :: later) =
      if argument = "-h" ∨ argument = "--help" then .ok .help
      else if argument = "-v" ∨ argument = "--version" then .ok .version
      else if argument = "-e" ∨ argument = "--eval" then
        match later with
        | [] => .error .missingCode
        | next :: later => read (some next) path later
      else if isOption argument then .error (.unknownOption argument)
      else if path.isSome then .error (.unexpectedArgument argument)
      else read code (some argument) later := read.eq_def ..

theorem read_evaluate {option : String} (code path : Option String) (next : String)
    (later : List String) (h : option = "-e" ∨ option = "--eval") :
    read code path (option :: next :: later) = read (some next) path later := by
  rw [read_cons]
  rcases h with rfl | rfl <;> rfl

theorem ne_of_head? {path option : String} (hpath : path.toList.head? ≠ some '-')
    (hoption : option.toList.head? = some '-') : path ≠ option := by
  rintro rfl
  exact hpath hoption

theorem read_file {path : String} (code : Option String) (later : List String)
    (h : path.toList.head? ≠ some '-') :
    read code none (path :: later) = read code (some path) later := by
  have help : ¬ (path = "-h" ∨ path = "--help") :=
    not_or.mpr ⟨ne_of_head? h (by decide), ne_of_head? h (by decide)⟩
  have version : ¬ (path = "-v" ∨ path = "--version") :=
    not_or.mpr ⟨ne_of_head? h (by decide), ne_of_head? h (by decide)⟩
  have evaluate : ¬ (path = "-e" ∨ path = "--eval") :=
    not_or.mpr ⟨ne_of_head? h (by decide), ne_of_head? h (by decide)⟩
  have option : ¬ isOption path := isOption_iff.not.mpr h
  rw [read_cons, if_neg help, if_neg version, if_neg evaluate, if_neg option,
    if_neg (by decide)]

theorem read_line {parts : List Part} (sequence : IsSequence parts) (rest : List String) :
    ofArguments (line parts ++ rest) = read (codes parts).getLast? (paths parts).getLast? rest := by
  induction parts using List.reverseRecOn generalizing rest with
  | nil => rfl
  | append_singleton parts part ih =>
      rw [line_append, List.append_assoc, codes_append, paths_append]
      cases part with
      | evaluate option code =>
          obtain ⟨hparts, hform⟩ := isSequence_concat_evaluate.mp sequence
          have hline : line [.evaluate option code] ++ rest = option :: code :: rest := rfl
          rw [ih hparts, hline, read_evaluate _ _ _ _ hform]
          simp
      | file path =>
          obtain ⟨hparts, hform, hpaths⟩ := isSequence_concat_file.mp sequence
          have hline : line [.file path] ++ rest = path :: rest := rfl
          rw [ih hparts, hline, hpaths]
          simpa using read_file _ _ hform

theorem ofArguments_line {parts : List Part} (sequence : IsSequence parts) :
    ofArguments (line parts) = settle (codes parts).getLast? (paths parts).getLast? := by
  have hread := read_line sequence []
  rwa [List.append_nil] at hread

/-! ## The grammar describes the reading -/

def Answers (arguments : List String) : Except UsageError Request → Prop
  | .ok request => Asks arguments request
  | .error error => Refuses arguments error.message

theorem answers_settle {parts : List Part} (sequence : IsSequence parts) :
    Answers (line parts) (settle (codes parts).getLast? (paths parts).getLast?) := by
  cases hcode : (codes parts).getLast? with
  | none =>
      have hcodes := List.getLast?_eq_none_iff.mp hcode
      cases hpath : (paths parts).getLast? with
      | none =>
          have hpaths := List.getLast?_eq_none_iff.mp hpath
          rw [eq_nil_of_codes_paths hcodes hpaths]
          rfl
      | some path =>
          have hparts := eq_singleton_of_codes_paths hcodes (sequence.paths_eq hpath)
          subst hparts
          exact ⟨rfl, sequence.form _ (List.mem_singleton_self _)⟩
  | some code =>
      cases hpath : (paths parts).getLast? with
      | none =>
          have hpaths := List.getLast?_eq_none_iff.mp hpath
          obtain ⟨front, option, rfl⟩ := exists_last_of_codes hpaths hcode
          rw [paths_append, List.append_eq_nil_iff] at hpaths
          exact ⟨front, option, sequence, hpaths.1, rfl⟩
      | some path =>
          have hcodes : codes parts ≠ [] := fun h => by simp [h] at hcode
          have hpaths : paths parts ≠ [] := fun h => by simp [h] at hpath
          exact .codeAndFile sequence hcodes hpaths

theorem answers_ofArguments {parts : List Part} (sequence : IsSequence parts)
    (rest : List String) : Answers (line parts ++ rest) (ofArguments (line parts ++ rest)) := by
  match rest with
  | [] =>
      rw [List.append_nil, ofArguments_line sequence]
      exact answers_settle sequence
  | argument :: later =>
      by_cases help : argument = "-h" ∨ argument = "--help"
      · rw [read_line sequence, read_cons, if_pos help]
        exact ⟨parts, argument, later, sequence, help, rfl⟩
      by_cases version : argument = "-v" ∨ argument = "--version"
      · rw [read_line sequence, read_cons, if_neg help, if_pos version]
        exact ⟨parts, argument, later, sequence, version, rfl⟩
      by_cases evaluate : argument = "-e" ∨ argument = "--eval"
      · cases later with
        | nil =>
            rw [read_line sequence, read_cons, if_neg help, if_neg version, if_pos evaluate]
            exact .missingCode sequence evaluate
        | cons next later =>
            have hnext := answers_ofArguments
              (isSequence_concat_evaluate.mpr ⟨sequence, evaluate⟩ :
                IsSequence (parts ++ [.evaluate argument next])) later
            rwa [line_append, List.append_assoc] at hnext
      have hstops : Stops parts argument ↔ _ := stops_iff sequence
      by_cases dash : argument.toList.head? = some '-'
      · have stops := hstops.mpr ⟨not_or.mp help, not_or.mp version, not_or.mp evaluate,
          fun hnot => absurd dash hnot⟩
        rw [read_line sequence, read_cons, if_neg help, if_neg version, if_neg evaluate,
          if_pos (isOption_iff.mpr dash)]
        exact .option later sequence stops dash
      by_cases hpaths : paths parts = []
      · have hnext := answers_ofArguments
          (isSequence_concat_file.mpr ⟨sequence, dash, hpaths⟩) later
        rwa [line_append, List.append_assoc] at hnext
      · have stops := hstops.mpr ⟨not_or.mp help, not_or.mp version, not_or.mp evaluate,
          fun _ => hpaths⟩
        rw [read_line sequence, read_cons, if_neg help, if_neg version, if_neg evaluate,
          if_neg (isOption_iff.not.mpr dash), if_pos (by simpa using hpaths)]
        exact .path later sequence stops dash
termination_by rest.length

theorem ofArguments_of_asks {arguments : List String} {request : Request}
    (h : Asks arguments request) : ofArguments arguments = .ok request := by
  cases request with
  | prompt =>
      obtain rfl : arguments = [] := h
      rfl
  | file path =>
      obtain ⟨rfl, dash⟩ := h
      exact read_file none [] dash
  | evaluate code =>
      obtain ⟨parts, option, sequence, hpaths, rfl⟩ := h
      rw [ofArguments_line sequence]
      simp [hpaths, settle]
  | help =>
      obtain ⟨parts, flag, later, sequence, help, rfl⟩ := h
      rw [read_line sequence, read_cons, if_pos help]
  | version =>
      obtain ⟨parts, flag, later, sequence, version, rfl⟩ := h
      rw [read_line sequence, read_cons, if_neg, if_pos version]
      rcases version with rfl | rfl <;> decide

theorem exists_error_of_refuses {arguments : List String} {message : String}
    (h : Refuses arguments message) :
    ∃ error, ofArguments arguments = .error error ∧ error.message = message := by
  cases h with
  | option later sequence stops dash =>
      obtain ⟨help, version, evaluate, -⟩ := (stops_iff sequence).mp stops
      refine ⟨.unknownOption _, ?_, rfl⟩
      rw [read_line sequence, read_cons, if_neg (not_or.mpr help), if_neg (not_or.mpr version),
        if_neg (not_or.mpr evaluate), if_pos (isOption_iff.mpr dash)]
  | path later sequence stops dash =>
      obtain ⟨help, version, evaluate, second⟩ := (stops_iff sequence).mp stops
      refine ⟨.unexpectedArgument _, ?_, rfl⟩
      rw [read_line sequence, read_cons, if_neg (not_or.mpr help), if_neg (not_or.mpr version),
        if_neg (not_or.mpr evaluate), if_neg (isOption_iff.not.mpr dash),
        if_pos (by simpa using second dash)]
  | missingCode sequence evaluates =>
      refine ⟨.missingCode, ?_, rfl⟩
      rw [read_line sequence, read_cons, if_neg, if_neg, if_pos evaluates]
      all_goals rcases evaluates with rfl | rfl <;> decide
  | codeAndFile sequence code path =>
      refine ⟨.codeAndFile, ?_, rfl⟩
      obtain ⟨lastCode, hcode⟩ := Option.isSome_iff_exists.mp (List.getLast?_isSome.mpr code)
      obtain ⟨lastPath, hpath⟩ := Option.isSome_iff_exists.mp (List.getLast?_isSome.mpr path)
      rw [ofArguments_line sequence, hcode, hpath]
      rfl

/-- The arguments make a request exactly if they are formed for it, and in all other cases they are
refused with a message that names what is at fault. -/
theorem ofArguments_follows_grammar (arguments : List String) :
    (∀ request, ofArguments arguments = .ok request ↔ Asks arguments request) ∧
      ((∃ error, ofArguments arguments = .error error) ↔ ∀ request, ¬ Asks arguments request) ∧
      (∀ message, (∃ error, ofArguments arguments = .error error ∧ error.message = message) ↔
        Refuses arguments message) := by
  have hanswers : Answers arguments (ofArguments arguments) := answers_ofArguments isSequence_nil _
  refine ⟨fun request => ⟨fun hread => ?_, ofArguments_of_asks⟩, ⟨?_, fun hnone => ?_⟩,
    fun message => ⟨?_, exists_error_of_refuses⟩⟩
  · rwa [hread] at hanswers
  · rintro ⟨error, hread⟩ request hasks
    rw [ofArguments_of_asks hasks] at hread
    contradiction
  · cases hread : ofArguments arguments with
    | error error => exact ⟨error, rfl⟩
    | ok request =>
        rw [hread] at hanswers
        exact absurd hanswers (hnone request)
  · rintro ⟨error, hread, rfl⟩
    rwa [hread] at hanswers

end Lexis.Request
