import FeatureFlags.CommandLine.Run

/-!
# Command lines

How the commands are written: their options, and a path behind them. The options are read one after
the other (`readArguments_switch`, `readArguments_value`); the path is read as such if it does not begin
with a hyphen (`readArguments_path`), and behind `--` in any case (`readArguments_escape`).
-/

namespace FeatureFlags.CommandLine

open Command

variable {fs : FileSystem} {p : Path} {verb : Verb} {g : Given} {arg next name text : RawText}
  {more operand : List RawText}

/-! ## One option after the other -/

/-- An option without a value is noted, and what follows it is read. -/
theorem readArguments_switch (s : Switch) (looks : shape arg = .long name none)
    (known : verb.switch? name = some s) (other : s ≠ .help) (alone : s.takesValue = false)
    (fresh : g.has s = false) : readArguments verb g (arg :: more) =
      readArguments verb { g with switches := s :: g.switches } more := by
  simp [readArguments, looks, known, other, alone, Given.setSwitch?, fresh]

/-- An option is noted with the value that follows it. -/
theorem readArguments_value (s : Switch) (looks : shape arg = .long name none)
    (known : verb.switch? name = some s) (other : s ≠ .help) (takes : s.takesValue = true)
    (value : shape next = .value text) (fresh : g.has s = false) (admitted : s.admits text = true) :
    readArguments verb g (arg :: next :: more) =
      readArguments verb { g with values := (s, text) :: g.values } more := by
  simp [readArguments, looks, known, other, takes, value, Given.setValue?, fresh, admitted]

theorem readArguments_format (switches : List Switch) (fresh : switches.contains .format = false)
    (more : List RawText) : readArguments .lint { switches } ("--format" :: "json" :: more) =
      readArguments .lint { switches, values := [(.format, .ofText "json")] } more := by
  have looks : shape "--format" = .long "format" none := rfl
  have value : shape "json" = .value "json" := rfl
  have first : Given.has { switches } .format = false := by simpa [Given.has] using fresh
  exact readArguments_value .format looks rfl nofun rfl value first rfl

/-! ## The path -/

/-- An argument that does not begin with a hyphen is read as the path. -/
theorem readArguments_path (there : p ≠ "") (plain : p.bytes.head? ≠ some hyphen)
    (verb : Verb) (g : Given) (first : g.path? = none) :
    readArguments verb g [p] = Given.command? { g with path? := some p } verb := by
  have value : shape p = .value p := by
    unfold shape
    rcases h : p.bytes with _ | ⟨a, _ | ⟨b, more⟩⟩
    · rfl
    · rfl
    · have other : a ≠ hyphen := by simpa [h] using plain
      simp [other]
  simp [readArguments, value, Given.setPath?, first, there]

/-- Behind `--` any argument is read as the path. -/
theorem readArguments_escape (there : p ≠ "") (verb : Verb) (g : Given)
    (first : g.path? = none) : readArguments verb g ["--", p] =
      Given.command? { g with path? := some p } verb := by
  have escape : shape "--" = .escape := rfl
  simp [readArguments, escape, readValues, Given.setPath?, first, there]

/-! ## The command lines -/

/-- Command lines with a path behind the options, and the commands that they stand for. The path is
given by one argument, or by two of which the first ends the options. -/
def lines (operand : List RawText) (p : Path) : List (List RawText × Command) :=
  [("parse" :: operand, .parse p none false false),
    ("parse" :: "--pretty" :: operand, .parse p none true false),
    ("validate" :: operand, .validate p false),
    ("validate" :: "--json" :: operand, .validate p true),
    ("lint" :: operand, .lint p "text" false false),
    ("lint" :: "--format" :: "json" :: operand, .lint p "json" false false),
    ("lint" :: "--strict" :: operand, .lint p "text" true false),
    ("lint" :: "--strict" :: "--format" :: "json" :: operand, .lint p "json" true false)]

/-- Where the path is read behind any options, the command lines stand for their commands. -/
theorem run_lines (read : ∀ verb g, g.path? = none →
    readArguments verb g operand = Given.command? { g with path? := some p } verb) :
    ∀ l ∈ lines operand p, run fs l.1 = runCommand fs l.2 := by
  have pretty : shape "--pretty" = .long "pretty" none := rfl
  have json : shape "--json" = .long "json" none := rfl
  have strict : shape "--strict" = .long "strict" none := rfl
  have each : ∀ l ∈ lines operand p, ofArguments? l.1 = some l.2 := by
    simp only [lines, List.forall_mem_cons, List.not_mem_nil, false_implies, implies_true, and_true]
    refine ⟨read .parse {} rfl, ?_, read .validate {} rfl, ?_, read .lint {} rfl, ?_, ?_, ?_⟩
    · exact (readArguments_switch .pretty pretty rfl nofun rfl rfl).trans (read .parse _ rfl)
    · exact (readArguments_switch .json json rfl nofun rfl rfl).trans (read .validate _ rfl)
    · exact (readArguments_format [] rfl operand).trans (read .lint _ rfl)
    · exact (readArguments_switch .strict strict rfl nofun rfl rfl).trans (read .lint _ rfl)
    · exact (readArguments_switch .strict strict rfl nofun rfl rfl).trans
        ((readArguments_format [.strict] rfl operand).trans (read .lint _ rfl))
  intro l hl
  rw [run, each l hl]

end FeatureFlags.CommandLine
