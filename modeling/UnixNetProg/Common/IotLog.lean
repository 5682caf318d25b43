import Mathlib.Data.PNat.Basic
import UnixNetProg.Lib.Memory
import UnixNetProg.Libc

/-!
# The log lines of the examples (`examples/common/iot_log.c`)

`printf_log` writes the prefix, the message and the line end into a buffer of `gst_log_buf_len` bytes; only the
first of the three calls is told how long it is. The memory is one flat memory in which `malloc` chooses an
address.
-/

namespace UnixNetProg.Common

open Lib

def LOG_LEVEL_ERR : Byte := 0
def LOG_LEVEL_WARN : Byte := 1
def LOG_LEVEL_NOTICE : Byte := 2
def LOG_LEVEL_INFO : Byte := 3
def LOG_LEVEL_DEBUG : Byte := 4
def LOG_LEVEL_TRACE : Byte := 5

/-- `gst_log_level` and `gst_log_buf_len`. -/
structure LogConfig where
  level : Byte
  bufLen : UInt16
  deriving DecidableEq, Repr

def initConfig : LogConfig := ⟨LOG_LEVEL_DEBUG, 512⟩

/-- `set_log_level`, and what it returns. -/
def setLogLevel (g : LogConfig) (level : Byte) (bufLen : UInt16) : LogConfig × ℤ :=
  if LOG_LEVEL_TRACE < level then (g, -1) else (⟨level, bufLen⟩, 0)

def setLogLevels (g : LogConfig) (calls : List (Byte × UInt16)) : LogConfig :=
  calls.foldl (fun g call => (setLogLevel g call.1 call.2).1) g

/-- `filename(x)`: what is behind the last `/`. -/
def filename (x : CString) : CString := (x.reverse.takeWhile (· != 47)).reverse

def levelTag (level : Byte) : Option CString :=
  if level = LOG_LEVEL_TRACE then some (cstr "[IoT Trace][")
  else if level = LOG_LEVEL_DEBUG then some (cstr "[IoT Debug][")
  else if level = LOG_LEVEL_INFO then some (cstr "[IoT Info][")
  else if level = LOG_LEVEL_NOTICE then some (cstr "[IoT Notice][")
  else if level = LOG_LEVEL_WARN then some (cstr "[IoT Warn][")
  else if level = LOG_LEVEL_ERR then some (cstr "[IoT Err][")
  else none

def tagText (tag file : CString) (line : UInt16) : CString :=
  tag ++ filename file ++ cstr ":" ++ decimal line.toNat ++ cstr "]"

/-- What `vsprintf` formats; with more bytes than an `int` can count it fails. -/
structure Message where
  bytes : List Byte
  length_le : bytes.length ≤ INT_MAX

/-- What a `printf` function returns for a text of `n` bytes. -/
def printfResult (n : ℕ) : ℤ := if n ≤ INT_MAX then n else -1

/-- The memory, the addresses of all stores, and the bytes that `__write_uart` was given. -/
structure LogRun where
  mem : Memory Byte
  stores : List ℕ
  written : Option (List Byte)
  ret : ℤ

def LogRun.put (r : LogRun) (addr : ℤ) (bytes : List Byte) : LogRun :=
  { r with mem := r.mem.store addr.toNat bytes, stores := r.stores ++ List.range' addr.toNat bytes.length }

/-- `snprintf`, which stores nothing if `size` is 0. -/
def LogRun.snprintf (r : LogRun) (addr : ℤ) (size : ℕ) (text : CString) : LogRun :=
  if size = 0 then r else r.put addr (text.take (size - 1) ++ [0])

def LogRun.sprintf (r : LogRun) (addr : ℤ) (text : List Byte) : LogRun := r.put addr (text ++ [0])

/-- `__write_uart`, whose `nbytes` is an `unsigned short`. -/
def LogRun.writeUart (r : LogRun) (addr : ℕ) (len : ℤ) : LogRun :=
  { r with written := some (r.mem.slice addr (addr + (len % 2 ^ 16).toNat)) }

/-- `printf_log` with what `malloc` returns, `none` for `NULL`, and with the message that `fmt` gives. -/
def printfLog (g : LogConfig) (malloc : Option ℕ+) (mem : Memory Byte) (level : Byte) (file : CString) (line : UInt16)
    (msg : Message) : LogRun :=
  let r : LogRun := ⟨mem, [], none, -1⟩
  match malloc with
  | none => r
  | some printbuf =>
    if g.level < level then r
    else
      let (r, len) : LogRun × ℤ :=
        match levelTag level with
        | some tag =>
          let text := tagText tag file line
          (r.snprintf printbuf g.bufLen.toNat text, printfResult text.length)
        | none => (r, 0)
      let r := r.sprintf (printbuf + len) msg.bytes
      let len := toInt32 (toSize (len + printfResult msg.bytes.length))
      let r := r.sprintf (printbuf + len) (cstr "\r\n")
      let len := toInt32 (toSize (len + 2))
      { r.writeUart printbuf len with ret := 0 }

/-- What `printf_log` is to write. -/
def logLine (level : Byte) (file : CString) (line : UInt16) (msg : Message) : List Byte :=
  (match levelTag level with
    | some tag => tagText tag file line
    | none => []) ++ msg.bytes ++ cstr "\r\n"

/-- All stores are inside the buffer, and the line is written, or a truncation of it where it does not fit. -/
structure LineOk (malloc : Option ℕ+) (bufLen : ℕ) (text : List Byte) (r : LogRun) : Prop where
  inside : ∀ a ∈ r.stores, ∃ printbuf ∈ malloc, printbuf ≤ a ∧ a < printbuf + bufLen
  written : ∀ bytes ∈ r.written, if text.length < bufLen then bytes = text else bytes <+: text

/-! ### One line -/

section Line

variable {g : LogConfig} {printbuf : ℕ+} {mem : Memory Byte} {level : Byte} {file tag : CString} {line : UInt16}
  {msg : Message}

theorem setLogLevels_le (calls : List (Byte × UInt16)) : (setLogLevels initConfig calls).level ≤ LOG_LEVEL_TRACE := by
  have hfold : ∀ g : LogConfig, g.level ≤ LOG_LEVEL_TRACE → (setLogLevels g calls).level ≤ LOG_LEVEL_TRACE := by
    induction calls with
    | nil => exact fun g hg => hg
    | cons call calls ih =>
      intro g hg
      apply ih
      show (setLogLevel g call.1 call.2).1.level ≤ _
      rw [setLogLevel]
      split
      · exact hg
      · rename_i hle
        exact UInt8.not_lt.mp hle
  exact hfold initConfig (by decide)

theorem exists_levelTag (h : level ≤ LOG_LEVEL_TRACE) : ∃ tag, levelTag level = some tag := by
  have hall : ∀ k : Fin 6, (levelTag (UInt8.ofNat k)).isSome := by decide
  have hlt : level.toNat < 6 := Nat.lt_succ_of_le (UInt8.le_iff_toNat_le.mp h)
  have hsome := hall ⟨level.toNat, hlt⟩
  rw [UInt8.ofNat_toNat] at hsome
  exact Option.isSome_iff_exists.mp hsome

theorem LogRun.put_inside {r : LogRun} {addr : ℤ} {bytes : List Byte} {lo hi : ℕ}
    (h : ∀ a ∈ r.stores, lo ≤ a ∧ a < hi) (hlo : lo ≤ addr.toNat) (hhi : addr.toNat + bytes.length ≤ hi) :
    ∀ a ∈ (r.put addr bytes).stores, lo ≤ a ∧ a < hi := by
  intro a ha
  rcases List.mem_append.mp ha with ha | ha
  · exact h a ha
  · have hrange := List.mem_range'_1.mp ha
    exact ⟨Nat.le_trans hlo hrange.1, Nat.lt_of_lt_of_le hrange.2 hhi⟩

theorem printfLog_eq (hg : level ≤ g.level) (htag : levelTag level = some tag) :
    printfLog g (some printbuf) mem level file line msg =
      let text := tagText tag file line
      let len := printfResult text.length
      let len' := toInt32 (toSize (len + printfResult msg.bytes.length))
      let len'' := toInt32 (toSize (len' + 2))
      { (((LogRun.snprintf ⟨mem, [], none, -1⟩ (printbuf : ℕ) g.bufLen.toNat text).sprintf
          ((printbuf : ℕ) + len) msg.bytes).sprintf ((printbuf : ℕ) + len') (cstr "\r\n")).writeUart printbuf len'' with
        ret := 0 } := by
  simp only [printfLog, if_neg (UInt8.not_lt.mpr hg), htag]

theorem printfResult_of_le {n : ℕ} (h : n ≤ INT_MAX) : printfResult n = n := if_pos h

theorem store_line (mem : Memory Byte) (p : ℕ) (text msg : List Byte) :
    ((mem.store p (text ++ [0])).store (p + text.length) (msg ++ [0])).store (p + (text.length + msg.length))
      (cstr "\r\n" ++ [0]) = mem.store p (text ++ msg ++ cstr "\r\n" ++ [0]) := by
  rw [Memory.store_snoc_store _ _ _ _ (List.append_ne_nil_of_right_ne_nil _ (by decide)), ← List.append_assoc,
    ← List.length_append, Memory.store_snoc_store _ _ _ _ (by decide), List.append_assoc _ _ [0]]

theorem lineOk_of_fits (hg : level ≤ g.level) (htag : levelTag level = some tag)
    (hfit : (tagText tag file line ++ msg.bytes).length + 2 < g.bufLen.toNat) :
    LineOk (some printbuf) g.bufLen.toNat (logLine level file line msg)
      (printfLog g (some printbuf) mem level file line msg) := by
  have hline : logLine level file line msg = tagText tag file line ++ msg.bytes ++ cstr "\r\n" := by
    rw [logLine, htag]
  rw [printfLog_eq hg htag, hline]
  generalize tagText tag file line = text at hfit ⊢
  have hbuf : g.bufLen.toNat < 2 ^ 16 := g.bufLen.toNat_lt
  have hmax : INT_MAX = 2147483647 := rfl
  rw [List.length_append] at hfit
  have hlen : printfResult text.length = text.length := printfResult_of_le (by omega)
  have hlen' : toInt32 (toSize (text.length + (msg.bytes.length : ℤ))) = text.length + (msg.bytes.length : ℤ) :=
    toInt32_toSize (by omega) (by omega)
  have hlen'' : toInt32 (toSize (text.length + (msg.bytes.length : ℤ) + 2)) =
      text.length + (msg.bytes.length : ℤ) + 2 := toInt32_toSize (by omega) (by omega)
  have htake : text.take (g.bufLen.toNat - 1) = text := List.take_of_length_le (by omega)
  have hsnprintf : LogRun.snprintf ⟨mem, [], none, -1⟩ (printbuf : ℕ) g.bufLen.toNat text =
      LogRun.put ⟨mem, [], none, -1⟩ (printbuf : ℕ) (text ++ [0]) := by
    rw [LogRun.snprintf, if_neg (by omega), htake]
  have haddr : (((printbuf : ℕ) : ℤ) + text.length).toNat = (printbuf : ℕ) + text.length := rfl
  have haddr' : (((printbuf : ℕ) : ℤ) + (text.length + (msg.bytes.length : ℤ))).toNat =
      (printbuf : ℕ) + (text.length + msg.bytes.length) := rfl
  have hcrlf : (cstr "\r\n" ++ [0]).length = 3 := rfl
  simp only [hlen, printfResult_of_le msg.length_le, hlen', hlen'', hsnprintf]
  constructor
  · intro a ha
    refine ⟨printbuf, rfl, ?_⟩
    have hput : ∀ a ∈ (LogRun.put ⟨mem, [], none, -1⟩ (printbuf : ℕ) (text ++ [0])).stores,
        (printbuf : ℕ) ≤ a ∧ a < printbuf + g.bufLen.toNat := by
      refine LogRun.put_inside (fun a ha => absurd ha (List.not_mem_nil)) (Nat.le_refl _) ?_
      rw [Int.toNat_natCast, List.length_append, List.length_singleton]
      omega
    refine LogRun.put_inside (LogRun.put_inside hput ?_ ?_) ?_ ?_ a ha
    · omega
    · rw [haddr, List.length_append, List.length_singleton]
      omega
    · omega
    · rw [haddr', hcrlf]
      omega
  · intro bytes hbytes
    rw [if_pos (by rw [List.length_append, List.length_append]; exact hfit)]
    obtain rfl := Option.some.inj hbytes
    have hcount : ((text.length + (msg.bytes.length : ℤ) + 2) % 2 ^ 16).toNat =
        (text ++ msg.bytes ++ cstr "\r\n").length := by
      have hmod : (text.length + (msg.bytes.length : ℤ) + 2) % 2 ^ 16 = text.length + (msg.bytes.length : ℤ) + 2 :=
        Int.emod_eq_of_lt (by omega) (by omega)
      rw [hmod, List.length_append, List.length_append]
      rfl
    show Memory.slice (((mem.store printbuf (text ++ [0])).store (printbuf + text.length) (msg.bytes ++ [0])).store
        (printbuf + (text.length + msg.bytes.length)) (cstr "\r\n" ++ [0])) _ (_ + Int.toNat _) = _
    rw [store_line, hcount]
    exact Memory.slice_store_left _ _ _ _

/-- A line without room stores its last `0` behind the buffer, or `vsprintf` stores outside where the lengths are
more than an `int` can count. -/
theorem not_lineOk_of_not_fits (hg : level ≤ g.level) (htag : levelTag level = some tag)
    (hfit : ¬ (tagText tag file line ++ msg.bytes).length + 2 < g.bufLen.toNat) :
    ¬ LineOk (some printbuf) g.bufLen.toNat (logLine level file line msg)
      (printfLog g (some printbuf) mem level file line msg) := by
  intro h
  have hinside : ∀ a ∈ (printfLog g (some printbuf) mem level file line msg).stores,
      (printbuf : ℕ) ≤ a ∧ a < printbuf + g.bufLen.toNat := by
    intro a ha
    obtain ⟨q, hq, hrange⟩ := h.inside a ha
    obtain rfl := Option.some.inj hq
    exact hrange
  rw [printfLog_eq hg htag] at hinside
  generalize tagText tag file line = text at hfit hinside
  have hbuf : g.bufLen.toNat < 2 ^ 16 := g.bufLen.toNat_lt
  have hpos : 0 < (printbuf : ℕ) := printbuf.pos
  rw [List.length_append] at hfit
  have hmsg : ∀ k ≤ msg.bytes.length,
      (printbuf : ℕ) ≤ (((printbuf : ℕ) : ℤ) + printfResult text.length).toNat + k ∧
        (((printbuf : ℕ) : ℤ) + printfResult text.length).toNat + k < printbuf + g.bufLen.toNat := by
    intro k hk
    refine hinside _ (List.mem_append_left _ (List.mem_append_right _ (List.mem_range'_1.mpr ⟨?_, ?_⟩)))
    · exact Nat.le_add_right _ k
    · rw [List.length_append, List.length_singleton]
      omega
  by_cases htext : text.length ≤ INT_MAX
  · have hlast := (hmsg msg.bytes.length (Nat.le_refl _)).2
    rw [printfResult_of_le htext] at hlast
    have haddr : (((printbuf : ℕ) : ℤ) + text.length).toNat = (printbuf : ℕ) + text.length := rfl
    rw [haddr] at hlast
    -- The message itself fits, so the lengths are those that the calls return.
    have hlen' : toInt32 (toSize (printfResult text.length + printfResult msg.bytes.length)) =
        text.length + (msg.bytes.length : ℤ) := by
      rw [printfResult_of_le htext, printfResult_of_le msg.length_le]
      exact toInt32_toSize (by omega) (by omega)
    have hend := (hinside ((((printbuf : ℕ) : ℤ) + toInt32 (toSize (printfResult text.length +
      printfResult msg.bytes.length))).toNat + 2) (List.mem_append_right _ (List.mem_range'_1.mpr
        ⟨Nat.le_add_right _ 2, Nat.lt_succ_self _⟩))).2
    rw [hlen'] at hend
    omega
  · have hfail : printfResult text.length = -1 := if_neg htext
    have hfirst := (hmsg 0 (Nat.zero_le _)).1
    rw [hfail] at hfirst
    omega

end Line

/-- After any settings, a call for a level that is shown stays inside the buffer and writes its line exactly when
`malloc` fails or the buffer has room for the line and a 0. -/
theorem printf_log_iff (calls : List (Byte × UInt16)) (malloc : Option ℕ+) (mem : Memory Byte) (level : Byte)
    (file : CString) (line : UInt16) (msg : Message) (hlevel : level ≤ (setLogLevels initConfig calls).level) :
    LineOk malloc (setLogLevels initConfig calls).bufLen.toNat (logLine level file line msg)
        (printfLog (setLogLevels initConfig calls) malloc mem level file line msg) ↔
      malloc = none ∨ (logLine level file line msg).length < (setLogLevels initConfig calls).bufLen.toNat := by
  obtain ⟨tag, htag⟩ := exists_levelTag (UInt8.le_trans hlevel (setLogLevels_le calls))
  have hlength : (logLine level file line msg).length = (tagText tag file line ++ msg.bytes).length + 2 := by
    rw [logLine, htag, List.length_append]
    rfl
  cases malloc with
  | none => exact iff_of_true ⟨nofun, nofun⟩ (.inl rfl)
  | some printbuf =>
    rw [hlength]
    constructor
    · intro h
      by_contra hor
      exact not_lineOk_of_not_fits hlevel htag (fun hfit => hor (.inr hfit)) h
    · intro hor
      exact lineOk_of_fits hlevel htag (hor.resolve_left nofun)

theorem printf_log_iff_sample :
    LineOk (some 4096) 64 (cstr "[IoT Info][main.c:7]hi\r\n")
      (printfLog ⟨LOG_LEVEL_TRACE, 64⟩ (some 4096) (fun _ => 0) LOG_LEVEL_INFO (cstr "/src/main.c") 7
        ⟨cstr "hi", by decide⟩) :=
  (printf_log_iff [(LOG_LEVEL_TRACE, 64)] (some 4096) (fun _ => 0) LOG_LEVEL_INFO (cstr "/src/main.c") 7
    ⟨cstr "hi", by decide⟩ (by decide)).mpr (.inr (by decide +kernel))

/-- A message of 512 bytes with the settings at the start. -/
theorem printf_log_overrun :
    ¬ LineOk (some 4096) initConfig.bufLen.toNat
      (logLine LOG_LEVEL_ERR (cstr "main.c") 7 ⟨List.replicate 512 120, by rw [List.length_replicate]; decide⟩)
      (printfLog (setLogLevels initConfig []) (some 4096) (fun _ => 0) LOG_LEVEL_ERR (cstr "main.c") 7
        ⟨List.replicate 512 120, by rw [List.length_replicate]; decide⟩) := by
  refine not_lineOk_of_not_fits (by decide) rfl ?_
  rw [List.length_append, List.length_replicate]
  have hbuf : initConfig.bufLen.toNat = 512 := rfl
  omega

end UnixNetProg.Common
