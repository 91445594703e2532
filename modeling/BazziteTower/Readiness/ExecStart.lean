import BazziteTower.Common
import BazziteTower.Lib.FindAll
import BazziteTower.Lib.Strings

/-!
# The pinned command lines

`bazzite-tower-snitchwatch-common.py` checks what `systemctl show` prints for `ExecStart`
with two patterns: `daemon_exec_contract` for the daemon, and one requirement of
`unit_contract` for the bridge.

## Main definitions

* `Command`, `shown` — exec commands, and what `systemctl show` prints for them.
* `daemonExecContract`, `bridgeExecContract` — the two checks.
* `Pinned` — the one command that is meant.
* `Disguised` — a list with a separator inside a field, in which only the pin stands where
  a path and an argument vector are looked for.

## Main results

* `findall_shown`, `paths_shown` — the patterns see each field by itself.
* `accepted_iff` — what the fields of an accepted list hold.
* `contracts_sound_iff` — the checks are sound on exactly the lists without disguise.
* `disguised_iff_hides` — what a disguise looks like where no path begins with a separator.
-/

namespace ExecStart

open Text (Pattern followed preceded findall findallFrom Stands SoleIn)

def DAEMON : String := "/usr/bin/opensnitchd"

def BINARY : String := "/usr/bin/snitchwatch-bridge-cli"

/-! ## The patterns -/

def pathLiteral : Text := ['p', 'a', 't', 'h', '=']

def argvLiteral : Text := ['a', 'r', 'g', 'v', '[', ']', '=']

/-- `[^ ;}]` -/
def inPath (c : Char) : Bool := c ≠ ' ' && c ≠ ';' && c ≠ '}'

/-- `[^;]` -/
def inArgv (c : Char) : Bool := c ≠ ';'

/-- `path=([^ ;}]+)` -/
def pathMatch : Pattern := followed pathLiteral inPath

/-- `[ {]path=([^ ;}]+)` -/
def innerPathMatch : Pattern := preceded (fun c => c = ' ' || c = '{') pathMatch

/-- `argv\[\]=([^;]+)` -/
def argvMatch : Pattern := followed argvLiteral inArgv

/-- `re.findall(r"(?:^|[ {])path=([^ ;}]+)", value)`: at the head of the text no character
has to stand before the literal. -/
def paths (value : Text) : List Text :=
  match pathMatch value with
  | some (group, length) => group :: findallFrom innerPathMatch length value
  | none => findall innerPathMatch value

def daemonExecContract (value : Text) : Except Exn Unit := do
  refuseUnless (paths value = [DAEMON.toList]) "effective daemon ExecStart binary mismatch"
  refuseUnless (findall argvMatch value = [(DAEMON ++ " ").toList])
    ("effective daemon ExecStart must be only " ++ DAEMON
      ++ "; CLI config/IPC/policy overrides are refused")

/-- The requirement of `unit_contract` on the `ExecStart` of the bridge. -/
def bridgeExecContract (value : Text) : Except Exn Unit :=
  refuseUnless
    (paths value = [BINARY.toList] && findall argvMatch value = [(BINARY ++ " ").toList])
    ("effective bridge ExecStart must be only " ++ BINARY)

/-! ## What `systemctl show` prints -/

/-- What is printed behind the argument vector of a command, up to the closing brace. -/
structure Status where
  text : Text
  no_path : ¬ pathLiteral <:+: text
  no_argv : ¬ argvLiteral <:+: text

structure Command where
  path : Text
  argv : List Text
  status : Status

/-- The arguments with single blanks between them, not quoted. -/
def Command.line (c : Command) : Text := [' '].intercalate c.argv

def Command.pathField (c : Command) : Text := '{' :: ' ' :: (pathLiteral ++ (c.path ++ [' ']))

def Command.argvField (c : Command) : Text := ' ' :: (argvLiteral ++ (c.line ++ [' ']))

/-- `{ path=P ; argv[]=A0 A1 … ; ignore_errors=… ; … }` -/
def Command.shown (c : Command) : Text :=
  c.pathField ++ ';' :: (c.argvField ++ ';' :: (c.status.text ++ ['}']))

def shown (commands : List Command) : Text := commands.flatMap Command.shown

/-- The fields of the commands, as they are printed, up to their semicolons. -/
def fields (commands : List Command) : List Text :=
  commands.flatMap fun c => [c.pathField, c.argvField]

/-- The one command that is meant: the pinned binary without a further argument. -/
def Pinned (binary : String) (commands : List Command) : Prop :=
  ∃ status, commands = [⟨binary.toList, [binary.toList], status⟩]

/-! ## The patterns on a list of commands -/

/-- What a pattern finds in the fields of a command, each by itself. -/
def Command.found (c : Command) (pattern : Pattern) : List Text :=
  findall pattern c.pathField ++ findall pattern c.argvField

/-- A pattern whose matches end at a semicolon, and which nothing matches in the status. -/
structure Splits (pattern : Pattern) : Prop where
  cuts : ∀ s, Text.Cuts pattern (';' :: s)
  separator : ∀ s, findall pattern (';' :: s) = findall pattern s
  status : ∀ (status : Status) (s : Text),
    findall pattern (status.text ++ '}' :: s) = findall pattern s

theorem splits_argvMatch : Splits argvMatch where
  cuts := Text.cuts_followed (by decide) (by decide)
  separator s := @Text.findall_followed_skip _ [] s _ _ (by decide) (by decide)
  status status s := Text.findall_followed_skip (by decide) status.no_argv

theorem splits_innerPathMatch : Splits innerPathMatch where
  cuts := Text.cuts_preceded (by decide) (by decide)
  separator s := @Text.findall_preceded_skip _ _ [] s _ _ (by decide) (by decide) (by decide)
  status status s := Text.findall_preceded_skip (by decide) (by decide) status.no_path

theorem findall_shown {pattern : Pattern} (h : Splits pattern) (commands : List Command) :
    findall pattern (shown commands) = commands.flatMap (Command.found · pattern) := by
  induction commands with
  | nil => rfl
  | cons c commands ih =>
    have hfields : shown (c :: commands)
        = c.pathField ++ ';' :: (c.argvField ++ ';' :: (c.status.text ++ '}' :: shown commands)) := by
      simp [shown, Command.shown]
    rw [hfields, Text.findall_append (h.cuts _), h.separator, Text.findall_append (h.cuts _),
      h.separator, h.status, ih, List.flatMap_cons, Command.found, List.append_assoc]

/-- What is printed begins with a brace, so that the `^` of the pattern plays no role. -/
theorem paths_shown (commands : List Command) :
    paths (shown commands) = commands.flatMap (Command.found · innerPathMatch) := by
  rw [← findall_shown splits_innerPathMatch]
  cases commands <;> rfl

/-! ## Soundness -/

/-- A command without a separator inside a field. -/
structure Command.Transparent (c : Command) : Prop where
  path_ne : c.path ≠ []
  path : ∀ ch ∈ c.path, ch ≠ ' ' ∧ ch ≠ ';' ∧ ch ≠ '}'
  argv : ∀ argument ∈ c.argv, ';' ∉ argument

/-- `path=` with the character before it. -/
def pathMarks : List Text := [' ' :: pathLiteral, '{' :: pathLiteral]

def argvMarks : List Text := [argvLiteral]

/-- Somewhere a separator stands inside a field, and in all fields together `path=` first stands
before the pin and a separator, `argv[]=` before the pin, a blank and a separator, and
neither stands anywhere else. -/
def Disguised (binary : String) (commands : List Command) : Prop :=
  (∃ c ∈ commands, ¬ c.Transparent)
    ∧ SoleIn pathMarks inPath binary.toList (fields commands)
    ∧ SoleIn argvMarks inArgv (binary ++ " ").toList (fields commands)

/-- Only one word makes a line without a blank. -/
theorem eq_singleton_of_intercalate {words : List Text} {w : Text} (hne : w ≠ []) (hw : ' ' ∉ w)
    (h : [' '].intercalate words = w) : words = [w] := by
  match words with
  | [] => exact absurd h.symm hne
  | [word] => simpa using h
  | word :: next :: words =>
    rw [List.intercalate_cons_cons] at h
    simp [← h] at hw

theorem Command.Transparent.ne_of_mem_line {c : Command} (h : c.Transparent) {ch : Char}
    (hch : ch ∈ c.line ++ [' ']) : ch ≠ ';' := by
  intro heq
  subst heq
  rw [List.mem_append] at hch
  rcases hch with hch | hch
  · obtain ⟨argument, hargument, hmem⟩ := Text.mem_intercalate (by decide) hch
    exact h.argv argument hargument hmem
  · exact absurd hch (by decide)

theorem reads_innerPathMatch : Text.Reads innerPathMatch pathMarks inPath := by
  have hheads : ∀ c, (c == ' ' || c == '{') = true ↔ c ∈ [' ', '{'] := by simp
  exact Text.reads_preceded hheads pathLiteral inPath

theorem reads_argvMatch : Text.Reads argvMatch argvMarks inArgv :=
  Text.reads_followed argvLiteral inArgv

/-- The first path that is found in the field of the path. -/
theorem Command.findall_pathField {c : Command} {word more : Text} (hpath : c.path = word ++ more)
    (hne : word ≠ []) (hword : ∀ ch ∈ word, inPath ch)
    (hmore : ∀ ch ∈ more.head?, inPath ch = false) :
    findall innerPathMatch c.pathField = word :: findall innerPathMatch (more ++ [' ']) := by
  have hends : ∀ ch ∈ (more ++ [' ']).head?, inPath ch = false := by
    cases more with
    | nil => simp [inPath]
    | cons ch more => simpa using hmore
  rw [Command.pathField, Text.findall_of_none rfl, hpath, List.append_assoc, ← List.cons_append]
  exact reads_innerPathMatch.findall_of_some (by simp [pathMarks]) hne hword hends

/-- The first line that is found in the field of the arguments. -/
theorem Command.findall_argvField {c : Command} {word rest : Text}
    (hline : c.line ++ [' '] = word ++ rest) (hne : word ≠ []) (hword : ∀ ch ∈ word, inArgv ch)
    (hrest : ∀ ch ∈ rest.head?, inArgv ch = false) :
    findall argvMatch c.argvField = word :: findall argvMatch rest := by
  rw [Command.argvField, Text.findall_of_none rfl, hline]
  exact reads_argvMatch.findall_of_some (by simp [argvMarks]) hne hword hrest

/-- A path without a separator is the first that is found. -/
theorem Command.Transparent.found_innerPathMatch {c : Command} (h : c.Transparent) :
    ∃ more, c.found innerPathMatch = c.path :: more := by
  have hgroup : ∀ ch ∈ c.path, inPath ch := by
    intro ch hch
    simpa [inPath, and_assoc] using h.path ch hch
  refine ⟨findall innerPathMatch [' '] ++ findall innerPathMatch c.argvField, ?_⟩
  rw [Command.found, Command.findall_pathField (List.append_nil _).symm h.path_ne hgroup (by simp)]
  rfl

/-- Arguments without a separator are found as they are, with the blank behind them. -/
theorem Command.Transparent.found_argvMatch {c : Command} (h : c.Transparent) :
    ∃ more, c.found argvMatch = more ++ [c.line ++ [' ']] := by
  have hline : ∀ ch ∈ c.line ++ [' '], inArgv ch := by
    intro ch hch
    simpa [inArgv] using h.ne_of_mem_line hch
  refine ⟨findall argvMatch c.pathField, ?_⟩
  rw [Command.found, Command.findall_argvField (List.append_nil _).symm (by simp) hline (by simp)]
  rfl

/-- What a pin has to be for this: a path without a separator. -/
def Plain (binary : String) : Prop :=
  binary.toList ≠ [] ∧ ∀ ch ∈ binary.toList, ch ≠ ' ' ∧ ch ≠ ';' ∧ ch ≠ '}'

instance (binary : String) : Decidable (Plain binary) :=
  @instDecidableAnd _ _ _ (List.decidableBAll _ binary.toList)

theorem plain_DAEMON : Plain DAEMON := by decide +kernel

theorem plain_BINARY : Plain BINARY := by decide +kernel

theorem inPath_pin {binary : String} (h : Plain binary) : ∀ ch ∈ binary.toList, inPath ch := by
  intro ch hch
  simpa [inPath, and_assoc] using h.2 ch hch

theorem inArgv_pin {binary : String} (h : Plain binary) : ∀ ch ∈ (binary ++ " ").toList, inArgv ch := by
  intro ch hch
  rw [String.toList_append, List.mem_append] at hch
  rcases hch with hch | hch
  · simpa [inArgv] using (h.2 ch hch).2.1
  · obtain rfl : ch = ' ' := by simpa using hch
    rfl

/-- Transparent commands that show only the pin are the one command that is meant. -/
theorem pinned_of_found {binary : String} (hbinary : Plain binary) {commands : List Command}
    (htransparent : ∀ c ∈ commands, c.Transparent)
    (hpath : commands.flatMap (Command.found · innerPathMatch) = [binary.toList])
    (hargv : commands.flatMap (Command.found · argvMatch) = [(binary ++ " ").toList]) :
    Pinned binary commands := by
  match commands with
  | [] => cases hpath
  | [c] =>
    have hc := htransparent c (by simp)
    obtain ⟨more, hmore⟩ := hc.found_innerPathMatch
    obtain ⟨more', hmore'⟩ := hc.found_argvMatch
    simp only [List.flatMap_cons, List.flatMap_nil, List.append_nil] at hpath hargv
    rw [hmore, List.cons.injEq] at hpath
    rw [hmore', List.append_eq_singleton_iff] at hargv
    obtain ⟨path, argv, status⟩ := c
    have hline : [' '].intercalate argv = binary.toList := by
      obtain ⟨-, hargv⟩ | ⟨-, hargv⟩ := hargv
      · simpa [Command.line] using hargv
      · cases hargv
    obtain rfl : path = binary.toList := hpath.1
    have hblank : ' ' ∉ binary.toList := fun hmem => (hbinary.2 _ hmem).1 rfl
    rw [eq_singleton_of_intercalate hbinary.1 hblank hline]
    exact ⟨status, rfl⟩
  | c :: c' :: commands =>
    obtain ⟨more, hmore⟩ := (htransparent c (by simp)).found_innerPathMatch
    obtain ⟨more', hmore'⟩ := (htransparent c' (by simp)).found_innerPathMatch
    simp [hmore, hmore'] at hpath

/-- A command that is only the pin has no separator inside a field. -/
theorem transparent_of_pin {binary : String} (hbinary : Plain binary) {c : Command}
    (hpath : c.path = binary.toList) (hline : c.line = binary.toList) : c.Transparent := by
  have hblank : ' ' ∉ binary.toList := fun hmem => (hbinary.2 _ hmem).1 rfl
  constructor
  · rw [hpath]
    exact hbinary.1
  · rw [hpath]
    exact hbinary.2
  · intro argument hargument
    rw [eq_singleton_of_intercalate hbinary.1 hblank hline] at hargument
    obtain rfl := List.mem_singleton.mp hargument
    exact fun hmem => (hbinary.2 _ hmem).2.1 rfl

theorem Pinned.transparent {binary : String} (hbinary : Plain binary) {commands : List Command}
    (h : Pinned binary commands) : ∀ c ∈ commands, c.Transparent := by
  obtain ⟨status, rfl⟩ := h
  intro c hc
  obtain rfl := List.mem_singleton.mp hc
  exact transparent_of_pin hbinary rfl (List.intercalate_singleton ..)

/-! ## What is accepted -/

theorem flatMap_found (commands : List Command) (pattern : Pattern) :
    commands.flatMap (Command.found · pattern) = (fields commands).flatMap (findall pattern) := by
  rw [fields, List.flatMap_assoc]
  simp [Command.found]

/-- The patterns find only the pin where it stands alone. -/
theorem accepted_iff {binary : String} (hbinary : Plain binary) {commands : List Command} :
    (commands.flatMap (Command.found · innerPathMatch) = [binary.toList]
        ∧ commands.flatMap (Command.found · argvMatch) = [(binary ++ " ").toList]) ↔
      SoleIn pathMarks inPath binary.toList (fields commands)
        ∧ SoleIn argvMarks inArgv (binary ++ " ").toList (fields commands) := by
  rw [flatMap_found, flatMap_found,
    reads_innerPathMatch.flatMap_findall_eq_singleton_iff hbinary.1 (inPath_pin hbinary),
    reads_argvMatch.flatMap_findall_eq_singleton_iff (by simp) (inArgv_pin hbinary)]

/-- A check that sees only what the fields show is sound where nothing is disguised. -/
theorem sound_iff_not_disguised {binary : String} (hbinary : Plain binary)
    {commands : List Command} :
    (commands.flatMap (Command.found · innerPathMatch) = [binary.toList]
        ∧ commands.flatMap (Command.found · argvMatch) = [(binary ++ " ").toList]
      → Pinned binary commands) ↔ ¬ Disguised binary commands := by
  constructor
  · rintro h ⟨⟨c, hc, hnot⟩, hsole⟩
    exact hnot ((h ((accepted_iff hbinary).mpr hsole)).transparent hbinary c hc)
  · intro h hfound
    refine pinned_of_found hbinary ?_ hfound.1 hfound.2
    intro c hc
    by_contra hnot
    exact h ⟨⟨c, hc, hnot⟩, (accepted_iff hbinary).mp hfound⟩

theorem daemonExecContract_eq_ok {commands : List Command} :
    daemonExecContract (shown commands) = .ok () ↔
      commands.flatMap (Command.found · innerPathMatch) = [DAEMON.toList]
        ∧ commands.flatMap (Command.found · argvMatch) = [(DAEMON ++ " ").toList] := by
  rw [daemonExecContract, Except.bind_eq_ok, paths_shown, findall_shown splits_argvMatch]
  simp

theorem bridgeExecContract_eq_ok {commands : List Command} :
    bridgeExecContract (shown commands) = .ok () ↔
      commands.flatMap (Command.found · innerPathMatch) = [BINARY.toList]
        ∧ commands.flatMap (Command.found · argvMatch) = [(BINARY ++ " ").toList] := by
  rw [bridgeExecContract, refuseUnless_eq_ok, paths_shown, findall_shown splits_argvMatch]
  simp

/-- **The checks are sound on exactly the lists without disguise.** -/
theorem contracts_sound_iff (commands : List Command) :
    ((daemonExecContract (shown commands) = .ok () → Pinned DAEMON commands)
      ↔ ¬ Disguised DAEMON commands)
    ∧ ((bridgeExecContract (shown commands) = .ok () → Pinned BINARY commands)
      ↔ ¬ Disguised BINARY commands) := by
  rw [daemonExecContract_eq_ok, bridgeExecContract_eq_ok]
  exact ⟨sound_iff_not_disguised plain_DAEMON, sound_iff_not_disguised plain_BINARY⟩

/-! ## What a disguise looks like -/

/-- The path and the line of arguments do not begin with a separator, as is so for every absolute
path. -/
structure Command.Visible (c : Command) : Prop where
  path : ∃ ch rest, c.path = ch :: rest ∧ inPath ch
  line : ∀ ch ∈ c.line.head?, inArgv ch

/-- The command shows only the pin: path and line go on, if at all, behind a separator, and no
further `path=` or `argv[]=` stands there. -/
structure Hides (binary : String) (c : Command) (more more' : Text) : Prop where
  path : c.path = binary.toList ++ more
  line : c.line = binary.toList ++ more'
  path_ends : ∀ ch ∈ more.head?, inPath ch = false
  line_ends : more' = [] ∨ [' ', ';'] <+: more'
  goes_on : more ≠ [] ∨ more' ≠ []
  no_path : ¬ Stands pathMarks inPath (more ++ [' ']) ∧ ¬ Stands pathMarks inPath c.argvField
  no_argv : ¬ Stands argvMarks inArgv c.pathField ∧ ¬ Stands argvMarks inArgv (more' ++ [' '])

theorem Hides.not_transparent {binary : String} {c : Command} {more more' : Text}
    (h : Hides binary c more more') : ¬ c.Transparent := by
  intro hc
  rcases h.goes_on with hmore | hmore'
  · obtain ⟨ch, rest, rfl⟩ := List.exists_cons_of_ne_nil hmore
    have hseparator : inPath ch = false := h.path_ends ch rfl
    have hplain := hc.path ch (by simp [h.path])
    simp [inPath, hplain] at hseparator
  · obtain ⟨tail, htail⟩ := h.line_ends.resolve_left hmore'
    have hmem : ';' ∈ c.line ++ [' '] := by simp [h.line, ← htail]
    exact hc.ne_of_mem_line hmem rfl

theorem Command.Visible.found_innerPathMatch {c : Command} (h : c.Visible) :
    c.found innerPathMatch = c.path.takeWhile inPath ::
      (findall innerPathMatch (c.path.dropWhile inPath ++ [' '])
        ++ findall innerPathMatch c.argvField) := by
  obtain ⟨ch, rest, hpath, hch⟩ := h.path
  have hne : c.path.takeWhile inPath ≠ [] := by simp [hpath, hch]
  rw [Command.found, Command.findall_pathField List.takeWhile_append_dropWhile.symm hne
    (fun d hd => List.all_eq_true.mp List.all_takeWhile d hd) (Text.not_head_dropWhile _ _)]
  rfl

theorem Command.Visible.found_argvMatch {c : Command} (h : c.Visible) :
    c.found argvMatch = findall argvMatch c.pathField ++ (c.line ++ [' ']).takeWhile inArgv ::
      findall argvMatch ((c.line ++ [' ']).dropWhile inArgv) := by
  have hne : (c.line ++ [' ']).takeWhile inArgv ≠ [] := by
    cases hline : c.line with
    | nil => simp [inArgv]
    | cons ch rest =>
      have hch := h.line ch (by simp [hline])
      simp [hch]
  rw [Command.found, Command.findall_argvField List.takeWhile_append_dropWhile.symm hne
    (fun d hd => List.all_eq_true.mp List.all_takeWhile d hd) (Text.not_head_dropWhile _ _)]

/-- A line with a blank behind it that begins with the pin and a blank. -/
theorem exists_line_eq {line word rest : Text} (h : line ++ [' '] = (word ++ [' ']) ++ rest)
    (hrest : ∀ ch ∈ rest.head?, ch = ';') :
    ∃ more, line = word ++ more ∧ (more = [] ∨ [' ', ';'] <+: more) ∧ more ++ [' '] = ' ' :: rest := by
  have hlast := List.dropLast_append_getLast (List.cons_ne_nil ' ' rest)
  rw [List.append_assoc, List.singleton_append, ← hlast, ← List.append_assoc] at h
  obtain ⟨hline, hblank⟩ := List.append_inj' h rfl
  refine ⟨(' ' :: rest).dropLast, hline, ?_, by rw [hblank, hlast]⟩
  match rest with
  | [] => exact .inl rfl
  | [ch] =>
    obtain rfl := hrest ch rfl
    exact absurd hblank (by decide)
  | ch :: ch' :: rest =>
    obtain rfl := hrest ch rfl
    exact .inr ⟨(ch' :: rest).dropLast, rfl⟩

/-- **A list of visible commands is disguised** exactly if it is one command that hides
something. -/
theorem disguised_iff_hides {binary : String} (hbinary : Plain binary) {commands : List Command}
    (hvisible : ∀ c ∈ commands, c.Visible) :
    Disguised binary commands ↔ ∃ c more more', commands = [c] ∧ Hides binary c more more' := by
  constructor
  · rintro ⟨⟨c₀, hc₀, hnot⟩, hsole⟩
    obtain ⟨hpath, hargv⟩ := (accepted_iff hbinary).mpr hsole
    match commands with
    | c :: c' :: commands =>
      have hfirst := (hvisible c (by simp)).found_innerPathMatch
      have hsecond := (hvisible c' (by simp)).found_innerPathMatch
      simp [hfirst, hsecond] at hpath
    | [c] =>
      obtain rfl := List.mem_singleton.mp hc₀
      have hc := hvisible c₀ hc₀
      rw [List.flatMap_singleton, hc.found_innerPathMatch, List.cons.injEq, List.append_eq_nil_iff,
        reads_innerPathMatch.findall_eq_nil_iff, reads_innerPathMatch.findall_eq_nil_iff] at hpath
      rw [List.flatMap_singleton, hc.found_argvMatch, List.append_eq_singleton_iff] at hargv
      obtain ⟨hword, hmore, hfield⟩ := hpath
      obtain ⟨hnone, hargv⟩ | ⟨-, hargv⟩ := hargv
      · obtain ⟨hline, hrest⟩ := List.cons.inj hargv
        have hsplit : c₀.line ++ [' '] =
            (binary.toList ++ [' ']) ++ (c₀.line ++ [' ']).dropWhile inArgv := by
          rw [show binary.toList ++ [' '] = (binary ++ " ").toList by simp, ← hline,
            List.takeWhile_append_dropWhile]
        obtain ⟨more', hmore', hends, hback⟩ := exists_line_eq hsplit fun ch hch => by
          simpa [inArgv] using Text.not_head_dropWhile _ _ ch hch
        have hpath : c₀.path = binary.toList ++ c₀.path.dropWhile inPath := by
          rw [← hword, List.takeWhile_append_dropWhile]
        refine ⟨c₀, c₀.path.dropWhile inPath, more', rfl, ?_⟩
        constructor
        · exact hpath
        · exact hmore'
        · exact Text.not_head_dropWhile _ _
        · exact hends
        · by_contra hstops
          rw [not_or, not_not, not_not] at hstops
          refine hnot (transparent_of_pin hbinary ?_ ?_)
          · rw [hpath, hstops.1, List.append_nil]
          · rw [hmore', hstops.2, List.append_nil]
        · exact ⟨hmore, hfield⟩
        · refine ⟨reads_argvMatch.findall_eq_nil_iff.mp hnone, ?_⟩
          rw [hback, ← reads_argvMatch.findall_eq_nil_iff, Text.findall_of_none rfl]
          exact hrest
      · cases hargv
  · rintro ⟨c, more, more', rfl, hides⟩
    obtain ⟨rest, hrest, hends⟩ : ∃ rest, more' ++ [' '] = ' ' :: rest ∧
        ∀ ch ∈ rest.head?, inArgv ch = false := by
      rcases hides.line_ends with hnil | ⟨tail, htail⟩
      · exact ⟨[], by rw [hnil]; rfl, by simp⟩
      · exact ⟨';' :: (tail ++ [' ']), by rw [← htail]; rfl, by simp [inArgv]⟩
    have hline : c.line ++ [' '] = (binary ++ " ").toList ++ rest := by
      rw [hides.line, List.append_assoc, hrest]
      simp
    refine ⟨⟨c, by simp, hides.not_transparent⟩, (accepted_iff hbinary).mp ⟨?_, ?_⟩⟩
    · rw [List.flatMap_singleton, Command.found,
        Command.findall_pathField hides.path hbinary.1 (inPath_pin hbinary) hides.path_ends,
        reads_innerPathMatch.findall_eq_nil_iff.mpr hides.no_path.1,
        reads_innerPathMatch.findall_eq_nil_iff.mpr hides.no_path.2]
      rfl
    · have hnone := reads_argvMatch.findall_eq_nil_iff.mpr hides.no_argv.2
      rw [hrest, Text.findall_of_none rfl] at hnone
      rw [List.flatMap_singleton, Command.found, reads_argvMatch.findall_eq_nil_iff.mpr hides.no_argv.1,
        Command.findall_argvField hline (by simp) (inArgv_pin hbinary) hends, hnone]
      rfl

/-! ## Options behind a separator -/

def idleStatus : Status where
  text := (" ignore_errors=no ; start_time=[n/a] ; stop_time=[n/a] ; pid=0 ; code=(null) ; "
    ++ "status=0/0 ").toList
  no_path := by decide +kernel
  no_argv := by decide +kernel

/-- The daemon with another configuration file: what is called `argv[0]` ends in a
semicolon. -/
def smuggled : Command where
  path := DAEMON.toList
  argv := [(DAEMON ++ " ;").toList, "-config-file".toList, "/tmp/deny.json".toList]
  status := idleStatus

theorem not_contracts_sound : ¬ ∀ commands : List Command,
    (daemonExecContract (shown commands) = .ok () → Pinned DAEMON commands)
    ∧ (bridgeExecContract (shown commands) = .ok () → Pinned BINARY commands) := by
  intro h
  have haccepted : daemonExecContract (shown [smuggled]) = .ok () := by
    decide +kernel
  obtain ⟨status, hpinned⟩ := (h [smuggled]).1 haccepted
  have hargv := congrArg (fun commands => commands.map fun c => c.argv.length) hpinned
  have hthree : [3] = [1] := hargv
  exact absurd hthree (by decide)

end ExecStart
