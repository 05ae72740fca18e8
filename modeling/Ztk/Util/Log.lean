import Ztk.Lib.Files
import Ztk.Lib.Machine

/-!
# The log file and its rotation

`log.c`.  A C string is the list of its characters, each of one byte, and the files are a
directory of names and contents.  All calls of the system succeed, except that a write which
would make a file larger than `off_t` can say has no result.  The clock and what `vsnprintf`
makes of the arguments are inputs of a call.

The state keeps the lines that were written to the file and counts the rotations.
-/

namespace Ztk.Util

open Ztk.Lib

/-- The characters of a C string. -/
abbrev CString := List Char

/-- `ztk_log_level_t`. -/
inductive LogLevel where
  | trace
  | debug
  | info
  | warn
  | error
  /-- A value of the enumeration's integer type that is no enumerator. -/
  | other (code : Nat)
deriving DecidableEq

/-- The integer value of a level. -/
def LogLevel.code : LogLevel → Nat
  | trace => 0
  | debug => 1
  | info => 2
  | warn => 3
  | error => 4
  | other n => n

/-- The static variables of `log.c`, the files, and what went to `stderr`. -/
structure LogState where
  level : LogLevel
  /-- The name that `s_log_file` was opened by. -/
  logFile : Option CString
  rotateMaxBytes : Nat
  rotateKeepCount : Nat
  writtenBytes : Nat
  logPath : CString
  files : Files CString Char
  stderr : CString
  /-- The lines written to the log file, in order. -/
  written : List CString
  /-- The calls of `do_rotate`. -/
  rotations : Nat

/-! ## Names and lines -/

/-- What `snprintf` leaves in a buffer of so many bytes. -/
def snprintf (size : Nat) (text : CString) : CString := text.take (size - 1)

/-- `ZTK_LOG_PATH_MAX`. -/
def logPathMax : Nat := 512

/-- `"%s.%d"`. -/
def backupName (path : CString) (i : Nat) : CString := path ++ '.' :: Nat.toDigits 10 i

/-- A name in the buffers of `do_rotate`. -/
def backupPath (path : CString) (i : Nat) : CString :=
  snprintf (logPathMax + 16) (backupName path i)

/-- `"%d"`. -/
def intDigits : Int → CString
  | .ofNat n => Nat.toDigits 10 n
  | .negSucc n => '-' :: Nat.toDigits 10 (n + 1)

/-- `level_name`. -/
def levelName : LogLevel → CString
  | .trace => ['T']
  | .debug => ['D']
  | .info => ['I']
  | .warn => ['W']
  | .error => ['E']
  | .other _ => ['?']

/-- What follows the last `c`, `strrchr(s, c) + 1`. -/
def afterLast (c : Char) (s : CString) : CString := (s.reverse.takeWhile fun d => d ≠ c).reverse

/-- `base` of `ztk_log_writev`. -/
def baseName : Option CString → CString
  | none => ['?']
  | some file =>
      if '/' ∈ file then afterLast '/' file
      else if '\\' ∈ file then afterLast '\\' file
      else file

/-- A call of `ztk_log_writev` at a time of the clock.  `text` is what `vsnprintf` makes of
`fmt` and `ap`. -/
structure LogCall where
  level : LogLevel
  file : Option CString
  line : Int
  text : CString
  now : Nat

/-- `prefix` of `ztk_log_writev`. -/
def LogCall.head (c : LogCall) : CString :=
  snprintf 128 (['['] ++ levelName c.level ++ [']', '['] ++ Nat.toDigits 10 c.now ++ [']', '['] ++
    baseName c.file ++ [':'] ++ intDigits c.line ++ [']', ' '])

/-- `msg` of `ztk_log_writev`. -/
def LogCall.msg (c : LogCall) : CString := snprintf 4096 c.text

/-- The line that is written. -/
def LogCall.output (c : LogCall) : CString := c.head ++ c.msg ++ ['\n']

/-- `line_len`. -/
def LogCall.lineLen (c : LogCall) : Nat := (c.head.length + c.msg.length + 1) % 2 ^ 64

/-! ## The functions -/

/-- The largest `off_t`. -/
def offMax : Nat := 2 ^ 63 - 1

/-- `fprintf` to a file that was opened for appending, and `fflush`. -/
def writeFile (files : Files CString Char) (p line : CString) :
    Option (Files CString Char) :=
  if ((files p).getD []).length + line.length ≤ offMax then some (files.append p line) else none

/-- The loop of `do_rotate`, from `i` down to 1. -/
def shiftBackups (path : CString) : Nat → Files CString Char → Files CString Char
  | 0, files => files
  | i + 1, files =>
      shiftBackups path i (files.rename (backupPath path (i + 1)) (backupPath path (i + 2)))

namespace LogState

/-- `do_rotate`. -/
def doRotate (s : LogState) : LogState :=
  if s.logPath = [] then s
  else
    let files := shiftBackups s.logPath (s.rotateKeepCount - 1) s.files
    let files := files.rename s.logPath (backupPath s.logPath 1)
    { s with
      files := files.openAppend s.logPath
      logFile := some s.logPath
      writtenBytes := 0
      rotations := s.rotations + 1 }

/-- `ztk_log_open_file`.  A null path is empty. -/
def openFile (s : LogState) (path : CString) : Int × LogState :=
  if path = [] then (-1, s)
  else
    (0, { s with
      logPath := path.take (logPathMax - 1)
      files := s.files.openAppend path
      logFile := some path
      writtenBytes := 0 })

/-- `ztk_log_set_rotate`. -/
def setRotate (s : LogState) (maxBytes : Nat) (keepCount : Int) : LogState :=
  { s with
    rotateMaxBytes := maxBytes
    rotateKeepCount := if 0 < keepCount then keepCount.toNat else 1 }

/-- `ztk_log_set_level`. -/
def setLevel (s : LogState) (level : LogLevel) : LogState := { s with level := level }

/-- The end of `ztk_log_writev`, after a line of `len` was written. -/
def countLine (s : LogState) (len : Nat) : LogState :=
  let s := { s with writtenBytes := (s.writtenBytes + len) % 2 ^ 64 }
  if 0 < s.rotateMaxBytes ∧ s.rotateMaxBytes ≤ s.writtenBytes then s.doRotate else s

/-- `ztk_log_writev`. -/
def writev (s : LogState) (c : LogCall) : Option LogState :=
  if c.level.code < s.level.code then some s
  else
    let s := { s with stderr := s.stderr ++ c.output }
    match s.logFile with
    | none => some s
    | some p =>
        (writeFile s.files p c.output).map fun files =>
          { s with files := files, written := s.written ++ [c.output] }.countLine c.lineLen

end LogState

/-- A line is logged, or the level changes. -/
inductive LogAct where
  | write (call : LogCall)
  | setLevel (level : LogLevel)

/-- The log with its files. -/
def logMachine : Machine LogState LogAct where
  step s a :=
    match a with
    | .write call => s.writev call
    | .setLevel level => some (s.setLevel level)

/-- The static variables at the start, with some files. -/
def logStart (files : Files CString Char) : LogState where
  level := .info
  logFile := none
  rotateMaxBytes := 0
  rotateKeepCount := 3
  writtenBytes := 0
  logPath := []
  files := files
  stderr := []
  written := []
  rotations := 0

/-! ## The names of the files -/

variable {path : CString} {maxBytes keep : Nat}

/-- The log file and its backups, by number. -/
def logName (path : CString) : Nat → CString
  | 0 => path
  | i + 1 => backupName path (i + 1)

theorem backupName_inj {i j : Nat} (h : backupName path i = backupName path j) : i = j := by
  have hdigits := List.tail_eq_of_cons_eq (List.append_cancel_left h)
  rw [← Nat.ofDigitChars_ten_toDigits (n := i), hdigits, Nat.ofDigitChars_ten_toDigits]

theorem backupName_ne_path (path : CString) (i : Nat) : backupName path i ≠ path := by
  intro h
  have hlen := congrArg List.length h
  rw [backupName, List.length_append, List.length_cons] at hlen
  omega

theorem logName_injective (path : CString) : Function.Injective (logName path) := by
  intro i j h
  cases i with
  | zero =>
      cases j with
      | zero => rfl
      | succ j => exact absurd h.symm (backupName_ne_path path (j + 1))
  | succ i =>
      cases j with
      | zero => exact absurd h (backupName_ne_path path (i + 1))
      | succ j => exact backupName_inj h

/-- The name of a backup fits the buffer. -/
theorem backupPath_eq (hlen : path.length < logPathMax) {i : Nat} (hi : i < 2 ^ 31) :
    backupPath path i = backupName path i := by
  have hdigits : (Nat.toDigits 10 i).length ≤ 10 :=
    (Nat.length_toDigits_le_iff (by decide) (by decide)).mpr (by omega)
  refine List.take_of_length_le ?_
  rw [backupName, List.length_append, List.length_cons]
  simp only [logPathMax] at hlen ⊢
  omega

/-- The renamings of `do_rotate` move every file of the log one place up. -/
theorem shiftBackups_eq (hlen : path.length < logPathMax) {m : Nat} (hm : m + 1 < 2 ^ 31)
    (files : Files CString Char) :
    (shiftBackups path m files).rename path (backupPath path 1) =
      Files.shift (logName path) (m + 1) files := by
  induction m generalizing files with
  | zero =>
      rw [backupPath_eq hlen (by decide)]
      rfl
  | succ m ih =>
      rw [shiftBackups, ih (Nat.lt_of_succ_lt hm), backupPath_eq hlen (Nat.lt_of_succ_lt hm),
        backupPath_eq hlen hm, Files.shift]
      rfl

/-! ## Rotation -/

/-- An open log that rotates. -/
structure Rotating (path : CString) (maxBytes keep : Nat) : Prop where
  named : path ≠ []
  short : path.length < logPathMax
  limit : 0 < maxBytes
  keeps : 0 < keep
  int : keep < 2 ^ 31

/-- The lines of a file that was rotated: with the last one it reached the limit. -/
def Closed (maxBytes : Nat) (lines : List CString) : Prop :=
  ∃ before last, lines = before ++ [last] ∧ before.flatten.length < maxBytes ∧
    maxBytes ≤ lines.flatten.length

/-- The log holds the lines `cur`, and its backups those of `old`, the newest first.  What is
older than the last backup is lost. -/
structure Logged (path : CString) (maxBytes keep : Nat) (s : LogState)
    (old : List (List CString)) (cur : List CString) : Prop where
  logPath : s.logPath = path
  logFile : s.logFile = some path
  rotateMaxBytes : s.rotateMaxBytes = maxBytes
  rotateKeepCount : s.rotateKeepCount = keep
  written : s.written = old.reverse.flatten ++ cur
  rotations : s.rotations = old.length
  files : Files.Shelved (logName path) s.files ((cur :: old.take keep).map List.flatten)
  writtenBytes : s.writtenBytes = cur.flatten.length
  closed : ∀ lines ∈ old, Closed maxBytes lines

namespace Logged

variable {s s' : LogState} {old : List (List CString)} {cur : List CString}

theorem doRotate (h : Logged path maxBytes keep s old cur) (hr : Rotating path maxBytes keep)
    (hcur : Closed maxBytes cur) : Logged path maxBytes keep s.doRotate (cur :: old) [] := by
  have hint := hr.int
  have hshift := shiftBackups_eq hr.short (m := keep - 1) (by omega) s.files
  rw [Nat.sub_add_cancel hr.keeps] at hshift
  have hfiles := h.files.shift (logName_injective path) hr.keeps (by
    rw [List.length_map, List.length_cons, List.length_take]
    omega)
  rw [← List.map_take] at hfiles
  have htake : (cur :: old.take keep).take keep = (cur :: old).take keep := by
    rw [← List.take_succ_cons, List.take_take, Nat.min_eq_left (Nat.le_succ keep)]
  rw [htake] at hfiles
  rw [LogState.doRotate, h.logPath, if_neg hr.named, h.rotateKeepCount]
  exact {
    logPath := rfl
    logFile := rfl
    rotateMaxBytes := h.rotateMaxBytes
    rotateKeepCount := rfl
    written := by
      rw [h.written, List.reverse_cons, List.flatten_append, List.append_nil]
      simp
    rotations := by
      rw [h.rotations]
      rfl
    files := by
      show Files.Shelved _ (((shiftBackups path (keep - 1) s.files).rename path
        (backupPath path 1)).openAppend path) _
      rw [hshift]
      exact hfiles
    writtenBytes := rfl
    closed := List.forall_mem_cons.mpr ⟨hcur, h.closed⟩ }

/-- A line is written, and the counter keeps in step with the file. -/
theorem countLine (h : Logged path maxBytes keep s old cur) (hr : Rotating path maxBytes keep)
    (hsmall : cur.flatten.length < maxBytes) {files : Files CString Char} (c : LogCall)
    (hfiles : writeFile s.files path c.output = some files) :
    ∃ old' cur', Logged path maxBytes keep
      ({ s with files := files, written := s.written ++ [c.output] }.countLine c.lineLen)
      old' cur' ∧ cur'.flatten.length < maxBytes := by
  have hcur : s.files path = some cur.flatten := h.files 0
  rw [writeFile, hcur, Option.getD_some] at hfiles
  split at hfiles
  · next hoff =>
      cases hfiles
      simp only [offMax] at hoff
      have hflat : (cur ++ [c.output]).flatten = cur.flatten ++ c.output := by
        rw [List.flatten_append, List.flatten_singleton]
      have houtput : c.output.length = c.head.length + c.msg.length + 1 := by
        rw [LogCall.output, List.length_append, List.length_append, List.length_singleton]
      have hline : c.lineLen = c.output.length := by
        rw [LogCall.lineLen, ← houtput]
        exact Nat.mod_eq_of_lt (by omega)
      have hcount : (s.writtenBytes + c.lineLen) % 2 ^ 64 = (cur ++ [c.output]).flatten.length := by
        rw [h.writtenBytes, hline, hflat, List.length_append]
        exact Nat.mod_eq_of_lt (by omega)
      have hnext : Logged path maxBytes keep
          { s with
            files := s.files.append path c.output
            written := s.written ++ [c.output]
            writtenBytes := (cur ++ [c.output]).flatten.length } old (cur ++ [c.output]) :=
        { logPath := h.logPath
          logFile := h.logFile
          rotateMaxBytes := h.rotateMaxBytes
          rotateKeepCount := h.rotateKeepCount
          written := by rw [h.written, List.append_assoc]
          rotations := h.rotations
          files := by
            rw [List.map_cons, hflat]
            exact Files.Shelved.append h.files (logName_injective path) c.output
          writtenBytes := rfl
          closed := h.closed }
      simp only [LogState.countLine, hcount]
      split
      · next hfull =>
          have hclosed : Closed maxBytes (cur ++ [c.output]) :=
            ⟨cur, c.output, rfl, hsmall, h.rotateMaxBytes ▸ hfull.2⟩
          exact ⟨_, [], hnext.doRotate hr hclosed, hr.limit⟩
      · next hroom =>
          rw [h.rotateMaxBytes] at hroom
          exact ⟨old, _, hnext, Nat.lt_of_not_le fun hle => hroom ⟨hr.limit, hle⟩⟩
  · cases hfiles

theorem step {a : LogAct} (h : Logged path maxBytes keep s old cur)
    (hr : Rotating path maxBytes keep) (hsmall : cur.flatten.length < maxBytes)
    (hs : logMachine.step s a = some s') :
    ∃ old' cur', Logged path maxBytes keep s' old' cur' ∧ cur'.flatten.length < maxBytes := by
  cases a with
  | setLevel level =>
      cases hs
      exact ⟨old, cur, { h with }, hsmall⟩
  | write c =>
      simp only [logMachine, LogState.writev] at hs
      split at hs
      · cases hs
        exact ⟨old, cur, h, hsmall⟩
      · split at hs
        · next hnone =>
            rw [h.logFile] at hnone
            cases hnone
        · next p hp =>
            rw [h.logFile] at hp
            cases hp
            obtain ⟨files, hfiles, rfl⟩ := Option.map_eq_some_iff.mp hs
            have hout : Logged path maxBytes keep { s with stderr := s.stderr ++ c.output }
              old cur := { h with }
            exact hout.countLine hr hsmall c hfiles

theorem opened {files : Files CString Char} (hr : Rotating path maxBytes keep)
    (hfresh : ∀ i, files (logName path i) = none)
    (hopen : (logStart files).openFile path = (0, s)) :
    Logged path maxBytes keep (s.setRotate maxBytes keep) [] [] := by
  have hshort := hr.short
  have hpath : path.take (logPathMax - 1) = path := List.take_of_length_le (by omega)
  simp only [LogState.openFile, if_neg hr.named] at hopen
  cases hopen
  exact {
    logPath := hpath
    logFile := rfl
    rotateMaxBytes := rfl
    rotateKeepCount := by
      show (if (0 : Int) < keep then (keep : Int).toNat else 1) = keep
      rw [if_pos (Int.natCast_pos.mpr hr.keeps), Int.toNat_natCast]
    written := rfl
    rotations := rfl
    files := by
      rw [List.take_nil]
      exact Files.Shelved.openAppend (fun i => hfresh i) (logName_injective path)
    writtenBytes := rfl
    closed := fun lines hl => absurd hl List.not_mem_nil }

/-- The files hold the last lines, oldest file first. -/
theorem kept (h : Logged path maxBytes keep s old cur) :
    Files.contents (logName path) s.files keep =
      ((old.take keep).reverse.flatten ++ cur).flatten := by
  rw [h.files.contents (by
    rw [List.length_map, List.length_cons, List.length_take]
    omega)]
  rw [← List.map_reverse, List.reverse_cons, List.map_append, List.flatten_append]
  simp [List.flatten_flatten]

theorem kept_suffix (h : Logged path maxBytes keep s old cur) :
    (old.take keep).reverse.flatten ++ cur <:+ s.written := by
  have hsplit : old.reverse = (old.drop keep).reverse ++ (old.take keep).reverse := by
    rw [← List.reverse_append, List.take_append_drop]
  refine ⟨(old.drop keep).reverse.flatten, ?_⟩
  rw [h.written, hsplit, List.flatten_append, List.append_assoc]

theorem backup (h : Logged path maxBytes keep s old cur) {i : Nat} (hi : 1 ≤ i) :
    s.files (backupName path i) = ((old.take keep)[i - 1]?).map List.flatten := by
  obtain ⟨j, rfl⟩ := Nat.exists_eq_add_of_le' hi
  rw [show s.files (backupName path (j + 1)) = _ from h.files (j + 1), List.map_cons,
    List.getElem?_cons_succ, List.getElem?_map, Nat.add_sub_cancel]

theorem backup_isSome (h : Logged path maxBytes keep s old cur) {i : Nat} (hi : 1 ≤ i) :
    (s.files (backupName path i)).isSome ↔ i ≤ min s.rotations keep := by
  rw [h.backup hi, Option.isSome_map, Option.isSome_iff_ne_none, ne_eq, List.getElem?_eq_none_iff,
    List.length_take, h.rotations]
  omega

theorem backup_closed (h : Logged path maxBytes keep s old cur) {i : Nat} (hi : 1 ≤ i)
    {content : List Char} (hc : s.files (backupName path i) = some content) :
    ∃ before last, before ++ [last] <:+: s.written ∧ content = (before ++ [last]).flatten ∧
      maxBytes ≤ content.length ∧ before.flatten.length < maxBytes := by
  rw [h.backup hi] at hc
  obtain ⟨lines, hget, rfl⟩ := Option.map_eq_some_iff.mp hc
  have hmem : lines ∈ old := List.mem_of_mem_take (List.mem_of_getElem? hget)
  obtain ⟨before, last, rfl, hlt, hle⟩ := h.closed lines hmem
  refine ⟨before, last, ?_, rfl, hle, hlt⟩
  rw [h.written]
  exact (List.infix_of_mem_flatten (List.mem_reverse.mpr hmem)).trans
    (List.prefix_append _ _).isInfix

end Logged

/-- A log that is opened with none of its files there, and rotates: in every run in which the
writes succeed, the files together are the last lines that were written, the backups there are
as many as there were rotations, up to the number to keep, and each of them ends with the line
that reached the limit. -/
theorem log_rotation_ordered {path : CString} (hlen : path.length < logPathMax)
    {maxBytes keep : Nat} (hmax : 0 < maxBytes) (hkeep : 1 ≤ keep) (hint : keep < 2 ^ 31)
    {files : Files CString Char}
    (hfresh : files path = none ∧ ∀ n, files (backupName path n) = none) {s₀ s : LogState}
    (hopen : (logStart files).openFile path = (0, s₀)) (acts : List LogAct)
    (hrun : logMachine.run (s₀.setRotate maxBytes keep) acts = some s) :
    (∃ kept, kept <:+ s.written ∧
      Files.contents (logName path) s.files keep = kept.flatten) ∧
    (∀ i, 1 ≤ i → ((s.files (backupName path i)).isSome ↔ i ≤ min s.rotations keep)) ∧
    ∀ i content, 1 ≤ i → s.files (backupName path i) = some content →
      ∃ before last, before ++ [last] <:+: s.written ∧ content = (before ++ [last]).flatten ∧
        maxBytes ≤ content.length ∧ before.flatten.length < maxBytes := by
  have hnamed : path ≠ [] := by
    rintro rfl
    cases hopen
  have hr : Rotating path maxBytes keep := ⟨hnamed, hlen, hmax, hkeep, hint⟩
  have hnone : ∀ i, files (logName path i) = none := by
    intro i
    cases i with
    | zero => exact hfresh.1
    | succ i => exact hfresh.2 (i + 1)
  obtain ⟨old, cur, h, -⟩ :=
    (Machine.leads_of_run acts _ _ hrun (Machine.runMeets_any acts _)).invariant
      (I := fun s => ∃ old cur, Logged path maxBytes keep s old cur ∧
        cur.flatten.length < maxBytes)
      (fun _ _ _ hi _ hs => by
        obtain ⟨old, cur, hl, hsmall⟩ := hi
        exact hl.step hr hsmall hs)
      ⟨[], [], Logged.opened hr hnone hopen, hmax⟩
  exact ⟨⟨_, h.kept_suffix, h.kept⟩, fun i hi => h.backup_isSome hi,
    fun i content hi hc => h.backup_closed hi hc⟩

/-- A line of fourteen bytes. -/
def shortLine (c : Char) : LogAct :=
  .write ⟨.error, some ['s', '/', 'a'], 1, [c], 5⟩

/-- Seven lines of fourteen bytes with two backups: every second line reaches the limit, and
after three rotations the first two lines are lost. -/
theorem log_rotation_three_times :
    ∃ s₀ s, (logStart fun _ => none).openFile ['l'] = (0, s₀) ∧
      logMachine.run (s₀.setRotate 28 2)
        [shortLine 'a', shortLine 'b', shortLine 'c', shortLine 'd', shortLine 'e', shortLine 'f',
          shortLine 'g'] = some s ∧
      (s.rotations = 3 ∧ s.files (backupName ['l'] 3) = none ∧ s.written.length = 7 ∧
        ((s.files (backupName ['l'] 2)).map fun c => c.length) = some 28) ∧
      ∃ kept, kept <:+ s.written ∧ Files.contents (logName ['l']) s.files 2 = kept.flatten := by
  have hrun : (logMachine.run (((logStart fun _ => none).openFile ['l']).2.setRotate 28 2)
      [shortLine 'a', shortLine 'b', shortLine 'c', shortLine 'd', shortLine 'e', shortLine 'f',
        shortLine 'g']).map (fun s => decide (s.rotations = 3 ∧
          s.files (backupName ['l'] 3) = none ∧ s.written.length = 7 ∧
          ((s.files (backupName ['l'] 2)).map fun c => c.length) = some 28)) = some true := by
    decide +kernel
  obtain ⟨s, hrun, hs⟩ := Machine.exists_run hrun
  have h := @log_rotation_ordered ['l'] (by decide) 28 2 (by decide) (by decide) (by decide)
    (fun _ => none) ⟨rfl, fun _ => rfl⟩ _ s rfl _ hrun
  exact ⟨_, s, rfl, hrun, hs, h.1⟩

end Ztk.Util
