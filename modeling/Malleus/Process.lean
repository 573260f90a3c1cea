import Malleus.Files
import Malleus.Library.Numbers

/-! Processes, as the PID file, `ps` and `kill` name them.

A process that malleus spawned carries the number of its VM run. No part of the
program can see that number; it is there to say which process is which. -/
namespace Malleus
open Strings Numbers Storage

abbrev Pid := UInt32

structure Process where
  /-- The state column of `ps`: a code and its modifiers. -/
  state : Text
  /-- The command column, as far as it is text. -/
  comm : Text
  /-- The VM run, of a process that malleus spawned. -/
  vm : Option Nat
  deriving DecidableEq, Repr

/-- The state code of a process that has ended and is not yet reaped. -/
def isZombie (state : Text) : Bool := state.head? = some 'Z'

namespace Process

def alive (p : Process) : Bool := !isZombie p.state

/-- The line of `ps -o stat=,comm=`. -/
def psLine (p : Process) : Text := p.state ++ ' ' :: p.comm ++ ['\n']

end Process

/-- Decide whether a `ps -o stat=,comm=` line describes a live vfkit. -/
def describesLiveVfkit (psLine : Text) : Bool :=
  match words isAsciiWhitespace psLine with
  | [] => false
  | state :: fields =>
    if isZombie state then false
    else
      match fields with
      | [] => false
      | command :: _ => contains "vfkit".toList command

/-- The probe rejects a zombie, whatever stands after the state. -/
theorem Process.alive_of_described {p : Process} (h : describesLiveVfkit (trim p.psLine) = true) :
    p.alive = true := by
  rw [Process.alive, Bool.not_eq_true']
  by_contra hzombie
  obtain ⟨rest, hstate⟩ : ∃ rest, p.state = 'Z' :: rest := by
    simpa [isZombie, List.head?_eq_some_iff] using hzombie
  have hline : p.psLine = 'Z' :: (rest ++ ' ' :: p.comm ++ ['\n']) := by
    rw [Process.psLine, hstate]
    rfl
  have hprefix : trim p.psLine <+: 'Z' :: (rest ++ ' ' :: p.comm ++ ['\n']) := by
    rw [trim, hline, List.dropWhile_cons_of_neg (by decide)]
    exact isPrefix_trimEndBy _ _
  cases htrim : trim p.psLine with
  | nil => simp [htrim, describesLiveVfkit] at h
  | cons c t =>
    rw [htrim, List.cons_prefix_cons] at hprefix
    obtain ⟨w, ws, hwords⟩ := words_cons_of_neg (show isAsciiWhitespace 'Z' = false by decide) t
    simp [htrim, hprefix.1, describesLiveVfkit, hwords, isZombie] at h

/-- `pid_str.trim().parse::<u32>()`. -/
def parsePid (contents : Text) : Option Pid := (fromStrRadix 10 UInt32.size (trim contents)).map UInt32.ofNat

/-- What malleus writes to `vfkit.pid`. -/
def pidText (pid : Pid) : Bytes := encode (decimal pid.toNat)

/-- The PID that the bytes of a PID file name. -/
def readPid (b : Bytes) : Option Pid := (decode b).bind parsePid

/-- A PID file reads back. -/
@[simp] theorem readPid_pidText (pid : Pid) : readPid (pidText pid) = some pid := by
  have htrim : trim (decimal pid.toNat) = decimal pid.toNat :=
    trim_eq_self fun c hc => isWhitespace_of_isDigit (decimal_digits _ c hc)
  have hlt : pid.toNat < UInt32.size := pid.toNat_lt
  rw [readPid, pidText, decode_encode, Option.bind_some, parsePid, htrim, fromStrRadix_decimal hlt]
  simp

theorem pidText_injective {pid pid' : Pid} (h : pidText pid = pidText pid') : pid = pid' := by
  have := congrArg readPid h
  simpa using this

end Malleus
