import Dwara.Dataplane.FrameStreams
import Mathlib.Data.Rat.Defs
import Mathlib.Algebra.Order.Ring.Rat

/-! The policing wrapper around the client's side of a WebSocket tunnel: what its reads feed to the
scanner, charge and pass on. -/

namespace Dwara.Dataplane.WebSocket
open Dwara.Lib Dwara.Lib.WebSocketFrame

section Wrapper

/-- `rate` tokens a second, and a second's worth at most. Times are in seconds, numbers exact. -/
structure Bucket where
  rate : ℚ
  tokens : ℚ
  last : ℚ

namespace Bucket

def new (rate : ℕ) (now : ℚ) : Bucket := ⟨rate,rate,now⟩

/-- Refill to the current instant and try to take one token. -/
def take (b : Bucket) (now : ℚ) : Bool × Bucket :=
  let tokens := min (b.tokens + max 0 (now - b.last) * b.rate) b.rate
  if 1 ≤ tokens then (true,⟨b.rate,tokens - 1,now⟩) else (false,⟨b.rate,tokens,now⟩)

end Bucket

def closePolicyViolation : Bytes := [0x88,0x02,0x03,0xe8]
def closeMessageTooBig : Bytes := [0x88,0x02,0x03,0xf1]
def closeProtocolError : Bytes := [0x88,0x02,0x03,0xea]

def flagNone : ℕ := 0
def flagRateClosed : ℕ := 1
def flagSizeClosed : ℕ := 2
def flagProtocolClosed : ℕ := 3

namespace FrameViolation

def closeFrame : FrameViolation → Bytes
  | .sizeExceeded => closeMessageTooBig
  | .protocolError => closeProtocolError
  | .none => []

def flag : FrameViolation → ℕ
  | .none => flagNone
  | .sizeExceeded => flagSizeClosed
  | .protocolError => flagProtocolClosed

theorem flag_ne_none {v : FrameViolation} (h : v ≠ .none) : v.flag ≠ flagNone := by
  cases v with
  | none => exact absurd rfl h
  | _ => exact nofun

end FrameViolation

structure WsPoliceIo where
  counter : FrameCounter
  bucket : Option Bucket
  charged : ℕ
  closing : Bool
  closeOut : Bytes
  violated : ℕ

/-- What the inner reader does with the buffer. -/
inductive Inner where
  | pending
  | failed
  | ready (data : Bytes)

inductive Poll where
  | pending
  | failed
  | ready
  deriving DecidableEq, Repr

/-- A read: what its buffer is filled with already, what the inner reader does, and the clock at each
token it asks for. -/
structure Call where
  filled : Bytes
  inner : Inner
  now : ℕ → ℚ

/-- What a read leaves, with the bytes that it fed to the scanner, those that the inner reader delivered and
the tokens that it asked for. -/
structure Polled where
  state : WsPoliceIo
  filled : Bytes
  poll : Poll
  fed : Bytes
  delivered : Bytes
  asked : ℕ

namespace WsPoliceIo

def withFlag (maxFramesPerSec maxFrameSize : Option ℕ) (now : ℚ) : WsPoliceIo :=
  ⟨.new maxFrameSize,maxFramesPerSec.map fun rate => .new (max rate 1) now,0,false,[],flagNone⟩

def scan (s : WsPoliceIo) (bytes : Bytes) : WsPoliceIo := { s with counter := s.counter.feed bytes }

def shut (s : WsPoliceIo) (closeFrame : Bytes) (flag : ℕ) : WsPoliceIo :=
  { s with closing := true, closeOut := s.closeOut ++ closeFrame, violated := flag }

def charge (s : WsPoliceIo) : WsPoliceIo := { s with charged := s.charged + 1 }

/-- A token for each frame that is due, to the first that is not funded. -/
def chargeFrames (now : ℕ → ℚ) : ℕ → ℕ → Bucket → WsPoliceIo → WsPoliceIo × ℕ
  | 0, asked, bucket, s => ({ s with bucket := some bucket },asked)
  | due + 1, asked, bucket, s =>
    let taken := bucket.take (now asked)
    if taken.1 then chargeFrames now due (asked + 1) taken.2 s.charge
    else ({ s.charge with bucket := some taken.2 }.shut closePolicyViolation flagRateClosed,asked + 1)

/-- What follows when the scanner was fed: its violation first, then the frames not charged yet. -/
def police (s : WsPoliceIo) (now : ℕ → ℚ) : WsPoliceIo × ℕ :=
  if s.counter.violation ≠ .none then (s.shut s.counter.violation.closeFrame s.counter.violation.flag,0)
  else
    match s.bucket with
    | none => (s,0)
    | some bucket => chargeFrames now (s.counter.frames - s.charged) 0 bucket s

def pollRead (s : WsPoliceIo) (call : Call) : Polled :=
  if s.closing then ⟨s,call.filled,.ready,[],[],0⟩
  else
    match call.inner with
    | .ready data =>
      let filled := call.filled ++ data
      let policed := (s.scan filled).police call.now
      ⟨policed.1,filled,.ready,filled,data,policed.2⟩
    | .pending => ⟨s,call.filled,.pending,[],[],0⟩
    | .failed => ⟨s,call.filled,.failed,[],[],0⟩

end WsPoliceIo

/-- The reads so far: what was fed, delivered and passed on, and the tokens asked for. -/
structure Trace where
  state : WsPoliceIo
  fed : Bytes
  delivered : Bytes
  passed : Bytes
  asked : ℕ

/-- The caller finds behind what its buffer was filled with what is passed on. -/
def Trace.next (t : Trace) (call : Call) : Trace :=
  let polled := t.state.pollRead call
  ⟨polled.state,t.fed ++ polled.fed,t.delivered ++ polled.delivered,t.passed ++ polled.filled.drop call.filled.length,t.asked + polled.asked⟩

def run (s : WsPoliceIo) (calls : List Call) : Trace := calls.foldl Trace.next ⟨s,[],[],[],0⟩

end Wrapper

section Counting
variable {c : FrameCounter}

/-- A data frame ends with the byte. -/
def endedBy (c : FrameCounter) (b : UInt8) : ℕ := if (c.byte b).frames = c.frames then 0 else 1

/-- The data frames that end in some bytes. -/
def ended (c : FrameCounter) : Bytes → ℕ
  | [] => 0
  | b :: bs => endedBy c b + ended (c.byte b) bs

theorem ended_append (xs ys : Bytes) : ended c (xs ++ ys) = ended c xs + ended (xs.foldl FrameCounter.byte c) ys := by
  induction xs generalizing c with
  | nil => rw [List.nil_append,ended,Nat.zero_add,List.foldl_nil]
  | cons x xs ih => rw [List.cons_append,ended,ended,ih,List.foldl_cons,Nat.add_assoc]

/-- The count stays, or goes on by one. -/
def Counts (c c' : FrameCounter) : Prop := c'.frames = c.frames ∨ c'.frames = (c.frames + 1) % 2 ^ 64

theorem counts_close (c : FrameCounter) (dataFrame : Bool) : Counts c (c.close dataFrame) := by
  cases dataFrame with
  | true => exact .inr rfl
  | false => exact .inl rfl

theorem counts_head (c : FrameCounter) (b0 b1 : UInt8) : Counts c (c.head b0 b1) := by
  rw [FrameCounter.head]
  repeat' split
  all_goals first | exact .inl rfl | exact counts_close c _

theorem counts_extension (c : FrameCounter) (read : Bytes) (maskLen : ℕ) : Counts c (c.extension read maskLen) := by
  rw [FrameCounter.extension]
  split <;> exact .inl rfl

theorem counts_byte (c : FrameCounter) (b : UInt8) : Counts c (c.byte b) := by
  rw [FrameCounter.byte]
  split
  · split
    · exact .inl rfl
    · exact counts_head c _ _
    · split
      · exact .inl rfl
      · exact counts_extension c _ _
    · split
      · exact counts_close c _
      · split
        · exact counts_close c _
        · exact .inl rfl
  · exact .inl rfl

theorem byte_frames (h : c.frames < 2 ^ 64) (b : UInt8) : (c.byte b).frames = (c.frames + endedBy c b) % 2 ^ 64 := by
  rw [endedBy]
  split
  · rename_i hsame
    rw [hsame,Nat.add_zero,Nat.mod_eq_of_lt h]
  · rename_i hmoved
    exact (counts_byte c b).resolve_left hmoved

/-- The count wraps. -/
theorem foldl_frames (h : c.frames < 2 ^ 64) (bs : Bytes) : (bs.foldl FrameCounter.byte c).frames = (c.frames + ended c bs) % 2 ^ 64 := by
  induction bs generalizing c with
  | nil => rw [ended,Nat.add_zero,Nat.mod_eq_of_lt h,List.foldl_nil]
  | cons b bs ih =>
    have hbyte := byte_frames h b
    have hlt : (c.byte b).frames < 2 ^ 64 := by
      rw [hbyte]
      exact Nat.mod_lt _ (by decide)
    rw [List.foldl_cons,ih hlt,hbyte,ended,Nat.mod_add_mod,Nat.add_assoc]

end Counting

section Reads
variable {s : WsPoliceIo}

/-- The scanner is where a chunk may end, and the wrapper is shut when there is a violation. -/
structure Sound (s : WsPoliceIo) : Prop where
  resumable : s.counter.Resumable
  frames_lt : s.counter.frames < 2 ^ 64
  shut_iff : s.closing = true ↔ s.violated ≠ flagNone
  clean : s.closing = false → s.counter.violation = .none

/-- No frame is charged that was not counted, and none is left while the tunnel is open. -/
structure Level (s : WsPoliceIo) : Prop where
  charged_le : s.charged ≤ s.counter.frames
  charged_eq : s.closing = false → s.bucket.isSome → s.charged = s.counter.frames

/-- What the frames that are due leave. -/
structure ChargedFrames (s s' : WsPoliceIo) (due asked asked' : ℕ) : Prop where
  counter : s'.counter = s.counter
  charged : s'.charged + asked = s.charged + asked'
  at_most : s'.charged ≤ s.charged + due
  all : s'.closing = false → s'.charged = s.charged + due
  shut_iff : s'.closing = true ↔ s'.violated ≠ flagNone

theorem chargeFrames_spec (now : ℕ → ℚ) {due asked : ℕ} {bucket : Bucket} (hshut : s.closing = true ↔ s.violated ≠ flagNone) :
    ChargedFrames s (WsPoliceIo.chargeFrames now due asked bucket s).1 due asked (WsPoliceIo.chargeFrames now due asked bucket s).2 := by
  induction due generalizing asked bucket s with
  | zero => exact ⟨rfl,rfl,le_rfl,fun _ => rfl,hshut⟩
  | succ due ih =>
    rw [WsPoliceIo.chargeFrames]
    cases hfunded : (bucket.take (now asked)).1 with
    | true =>
      rw [if_pos rfl]
      have h := @ih s.charge (asked + 1) (bucket.take (now asked)).2 hshut
      have hcharge : s.charge.charged = s.charged + 1 := rfl
      have hcharged := h.charged
      have hmost := h.at_most
      rw [hcharge] at hcharged hmost
      refine ⟨h.counter,by omega,by omega,fun hopen => ?_,h.shut_iff⟩
      rw [h.all hopen,hcharge]
      omega
    | false =>
      rw [if_neg Bool.false_ne_true]
      have hcharge : s.charge.charged = s.charged + 1 := rfl
      refine ⟨rfl,?_,?_,nofun,iff_of_true rfl nofun⟩
      · simp only [WsPoliceIo.shut,hcharge]
        omega
      · simp only [WsPoliceIo.shut,hcharge]
        omega

theorem police_counter (now : ℕ → ℚ) (hshut : s.closing = true ↔ s.violated ≠ flagNone) : (s.police now).1.counter = s.counter := by
  rw [WsPoliceIo.police]
  split
  · rfl
  · split
    · rfl
    · exact (chargeFrames_spec now hshut).counter

theorem police_charged (now : ℕ → ℚ) (hshut : s.closing = true ↔ s.violated ≠ flagNone) :
    (s.police now).1.charged = s.charged + (s.police now).2 := by
  rw [WsPoliceIo.police]
  split
  · rfl
  · split
    · rfl
    · rename_i bucket _
      have h := @chargeFrames_spec s now (s.counter.frames - s.charged) 0 bucket hshut
      exact h.charged

theorem police_shut_iff (now : ℕ → ℚ) (hshut : s.closing = true ↔ s.violated ≠ flagNone) :
    (s.police now).1.closing = true ↔ (s.police now).1.violated ≠ flagNone := by
  rw [WsPoliceIo.police]
  split
  · rename_i hviolation
    exact iff_of_true rfl (FrameViolation.flag_ne_none hviolation)
  · split
    · exact hshut
    · exact (chargeFrames_spec now hshut).shut_iff

theorem police_sound (now : ℕ → ℚ) (hresumable : s.counter.Resumable) (hframes : s.counter.frames < 2 ^ 64)
    (hshut : s.closing = true ↔ s.violated ≠ flagNone) : Sound (s.police now).1 := by
  have hcounter := police_counter now hshut
  refine ⟨by rwa [hcounter],by rwa [hcounter],police_shut_iff now hshut,fun hopen => ?_⟩
  rw [hcounter]
  by_contra hviolation
  rw [WsPoliceIo.police,if_pos hviolation] at hopen
  cases hopen

theorem police_level (now : ℕ → ℚ) (hshut : s.closing = true ↔ s.violated ≠ flagNone) (hle : s.charged ≤ s.counter.frames) :
    Level (s.police now).1 := by
  rw [WsPoliceIo.police]
  split
  · exact ⟨hle,nofun⟩
  · split
    · rename_i hbucket
      refine ⟨hle,fun _ hsome => ?_⟩
      rw [hbucket] at hsome
      cases hsome
    · rename_i bucket _
      have h := @chargeFrames_spec s now (s.counter.frames - s.charged) 0 bucket hshut
      have hmost := h.at_most
      constructor
      · rw [h.counter]
        omega
      · intro hopen _
        rw [h.counter,h.all hopen]
        omega

theorem scan_counter (h : s.counter.Resumable) (bytes : Bytes) : (s.scan bytes).counter = bytes.foldl FrameCounter.byte s.counter :=
  FrameCounter.feed_eq_foldl h bytes

/-- A read that feeds the scanner starts with nothing in its buffer. -/
def Fresh (s : WsPoliceIo) (call : Call) : Prop := s.closing = false → ∀ data, call.inner = .ready data → call.filled = []

/-- What one read does: nothing once the tunnel is shut and while the inner reader has nothing, else the scanner
is fed and the wrapper polices. -/
theorem pollRead_cases (s : WsPoliceIo) (call : Call) :
    (∃ poll, s.pollRead call = ⟨s,call.filled,poll,[],[],0⟩ ∧ (s.closing = true ∨ ∀ data, call.inner ≠ .ready data)) ∨
      ∃ data, s.closing = false ∧ call.inner = .ready data ∧
        s.pollRead call = ⟨((s.scan (call.filled ++ data)).police call.now).1,call.filled ++ data,.ready,call.filled ++ data,data,
          ((s.scan (call.filled ++ data)).police call.now).2⟩ := by
  rw [WsPoliceIo.pollRead]
  cases hclosing : s.closing with
  | true => exact .inl ⟨.ready,rfl,.inl rfl⟩
  | false =>
    rw [if_neg Bool.false_ne_true]
    cases hinner : call.inner with
    | pending => exact .inl ⟨.pending,rfl,.inr nofun⟩
    | failed => exact .inl ⟨.failed,rfl,.inr nofun⟩
    | ready data => exact .inr ⟨data,rfl,rfl,rfl⟩

theorem pollRead_fed_eq_iff (s : WsPoliceIo) (call : Call) : (s.pollRead call).fed = (s.pollRead call).delivered ↔ Fresh s call := by
  rcases pollRead_cases s call with ⟨poll,hpoll,hidle⟩ | ⟨data,hopen,hready,hpoll⟩
  · rw [hpoll]
    refine iff_of_true rfl fun hopen data hready => ?_
    rcases hidle with hclosing | hidle
    · rw [hclosing] at hopen
      cases hopen
    · exact absurd hready (hidle data)
  · rw [hpoll]
    constructor
    · intro heq _ _ _
      exact List.append_left_eq_self.mp heq
    · intro hfresh
      rw [hfresh hopen data hready,List.nil_append]

theorem pollRead_delivered_le (s : WsPoliceIo) (call : Call) : (s.pollRead call).delivered.length ≤ (s.pollRead call).fed.length := by
  rcases pollRead_cases s call with ⟨poll,hpoll,-⟩ | ⟨data,-,-,hpoll⟩
  · rw [hpoll]
  · rw [hpoll]
    have hle : data.length ≤ (call.filled ++ data).length := by
      rw [List.length_append]
      exact Nat.le_add_left _ _
    exact hle

/-- The buffer holds what it held, and what the inner reader delivered. -/
theorem pollRead_filled (s : WsPoliceIo) (call : Call) : (s.pollRead call).filled = call.filled ++ (s.pollRead call).delivered := by
  rcases pollRead_cases s call with ⟨poll,hpoll,-⟩ | ⟨data,-,-,hpoll⟩
  · rw [hpoll,List.append_nil]
  · rw [hpoll]

theorem pollRead_charged (h : Sound s) (call : Call) : (s.pollRead call).state.charged = s.charged + (s.pollRead call).asked := by
  rcases pollRead_cases s call with ⟨poll,hpoll,-⟩ | ⟨data,-,-,hpoll⟩
  · rw [hpoll,Nat.add_zero]
  · rw [hpoll]
    exact police_charged call.now h.shut_iff

theorem scan_frames_lt (h : Sound s) (bytes : Bytes) : (s.scan bytes).counter.frames < 2 ^ 64 := by
  rw [scan_counter h.resumable,foldl_frames h.frames_lt]
  exact Nat.mod_lt _ (by decide)

theorem pollRead_sound (h : Sound s) (call : Call) : Sound (s.pollRead call).state := by
  rcases pollRead_cases s call with ⟨poll,hpoll,-⟩ | ⟨data,-,-,hpoll⟩
  · rw [hpoll]
    exact h
  · rw [hpoll]
    refine police_sound call.now ?_ (scan_frames_lt h _) h.shut_iff
    rw [scan_counter h.resumable]
    exact h.resumable.foldl _

/-- A read that starts with nothing in its buffer feeds the scanner with what is delivered. -/
theorem pollRead_counter (h : Sound s) {call : Call} (hfresh : Fresh s call) :
    (s.pollRead call).state.counter = (s.pollRead call).delivered.foldl FrameCounter.byte s.counter := by
  rcases pollRead_cases s call with ⟨poll,hpoll,-⟩ | ⟨data,hopen,hready,hpoll⟩
  · rw [hpoll,List.foldl_nil]
  · rw [hpoll]
    dsimp only
    have hshut : (s.scan (call.filled ++ data)).closing = true ↔ (s.scan (call.filled ++ data)).violated ≠ flagNone := h.shut_iff
    rw [police_counter call.now hshut,scan_counter h.resumable,hfresh hopen data hready,List.nil_append]

theorem pollRead_level (h : Sound s) (hlevel : Level s) {call : Call} (hfresh : Fresh s call)
    (hcount : s.counter.frames + ended s.counter (s.pollRead call).delivered < 2 ^ 64) : Level (s.pollRead call).state := by
  rcases pollRead_cases s call with ⟨poll,hpoll,-⟩ | ⟨data,hopen,hready,hpoll⟩
  · rw [hpoll]
    exact hlevel
  · rw [hpoll] at hcount ⊢
    have hshut : (s.scan (call.filled ++ data)).closing = true ↔ (s.scan (call.filled ++ data)).violated ≠ flagNone := h.shut_iff
    refine police_level call.now hshut ?_
    calc
      (s.scan (call.filled ++ data)).charged = s.charged := rfl
      _ ≤ s.counter.frames := hlevel.charged_le
      _ ≤ s.counter.frames + ended s.counter data := Nat.le_add_right _ _
      _ = (s.scan (call.filled ++ data)).counter.frames := by
        rw [scan_counter h.resumable,hfresh hopen data hready,List.nil_append,foldl_frames h.frames_lt,Nat.mod_eq_of_lt hcount]

end Reads

section Runs
variable {s : WsPoliceIo} {calls : List Call}

/-- Every read that feeds the scanner starts with nothing in its buffer. -/
def FreshReads : WsPoliceIo → List Call → Prop
  | _, [] => True
  | s, call :: calls => Fresh s call ∧ FreshReads (s.pollRead call).state calls

theorem run_concat (s : WsPoliceIo) (calls : List Call) (call : Call) : run s (calls ++ [call]) = (run s calls).next call := by
  rw [run,List.foldl_append,List.foldl_cons,List.foldl_nil,run]

theorem foldl_next_state (t : Trace) (calls : List Call) :
    (calls.foldl Trace.next t).state = calls.foldl (fun s call => (s.pollRead call).state) t.state := by
  induction calls generalizing t with
  | nil => rfl
  | cons call calls ih => exact ih (t.next call)

theorem run_state (s : WsPoliceIo) (calls : List Call) : (run s calls).state = calls.foldl (fun s call => (s.pollRead call).state) s :=
  foldl_next_state _ calls

theorem freshReads_concat (s : WsPoliceIo) (calls : List Call) (call : Call) :
    FreshReads s (calls ++ [call]) ↔ FreshReads s calls ∧ Fresh (run s calls).state call := by
  rw [run_state]
  induction calls generalizing s with
  | nil => exact ⟨fun h => ⟨trivial,h.1⟩,fun h => ⟨h.2,trivial⟩⟩
  | cons first calls ih =>
    rw [List.cons_append,FreshReads,FreshReads,ih,List.foldl_cons,and_assoc]

theorem run_delivered_le (s : WsPoliceIo) (calls : List Call) : (run s calls).delivered.length ≤ (run s calls).fed.length := by
  induction calls using List.reverseRecOn with
  | nil => exact le_rfl
  | append_singleton calls call ih =>
    have hle := pollRead_delivered_le (run s calls).state call
    rw [run_concat,Trace.next,List.length_append,List.length_append]
    omega

/-- The scanner is fed with what is delivered just where no read finds its buffer filled. -/
theorem run_fed_eq_iff (s : WsPoliceIo) (calls : List Call) : (run s calls).fed = (run s calls).delivered ↔ FreshReads s calls := by
  induction calls using List.reverseRecOn with
  | nil => exact iff_of_true rfl trivial
  | append_singleton calls call ih =>
    rw [freshReads_concat,← ih,← pollRead_fed_eq_iff,run_concat,Trace.next]
    constructor
    · intro heq
      -- what was fed is not shorter in any read, so that no part of it is longer
      have hlength := congrArg List.length heq
      have hbefore := run_delivered_le s calls
      have hlast := pollRead_delivered_le (run s calls).state call
      simp only [List.length_append] at hlength
      exact List.append_inj heq (by omega)
    · rintro ⟨hbefore,hlast⟩
      rw [hbefore,hlast]

/-- Reads pass through byte for byte. -/
theorem run_passed (s : WsPoliceIo) (calls : List Call) : (run s calls).passed = (run s calls).delivered := by
  induction calls using List.reverseRecOn with
  | nil => rfl
  | append_singleton calls call ih =>
    rw [run_concat,Trace.next,pollRead_filled,List.drop_left,ih]

theorem run_sound (h : Sound s) (calls : List Call) : Sound (run s calls).state := by
  induction calls using List.reverseRecOn with
  | nil => exact h
  | append_singleton calls call ih =>
    rw [run_concat]
    exact pollRead_sound ih call

theorem run_charged (h : Sound s) (calls : List Call) : (run s calls).state.charged = s.charged + (run s calls).asked := by
  induction calls using List.reverseRecOn with
  | nil => rfl
  | append_singleton calls call ih =>
    rw [run_concat]
    simp only [Trace.next]
    rw [pollRead_charged (run_sound h calls),ih,Nat.add_assoc]

theorem run_counter (h : Sound s) (hfresh : FreshReads s calls) :
    (run s calls).state.counter = (run s calls).delivered.foldl FrameCounter.byte s.counter := by
  induction calls using List.reverseRecOn with
  | nil => rfl
  | append_singleton calls call ih =>
    obtain ⟨hbefore,hlast⟩ := (freshReads_concat s calls call).mp hfresh
    rw [run_concat]
    simp only [Trace.next]
    rw [pollRead_counter (run_sound h calls) hlast,ih hbefore,List.foldl_append]

theorem run_level (h : Sound s) (hlevel : Level s) (hfresh : FreshReads s calls)
    (hcount : s.counter.frames + ended s.counter (run s calls).delivered < 2 ^ 64) : Level (run s calls).state := by
  induction calls using List.reverseRecOn with
  | nil => exact hlevel
  | append_singleton calls call ih =>
    obtain ⟨hbefore,hlast⟩ := (freshReads_concat s calls call).mp hfresh
    rw [run_concat] at hcount ⊢
    simp only [Trace.next] at hcount ⊢
    rw [ended_append,← run_counter h hbefore] at hcount
    refine pollRead_level (run_sound h calls) (ih hbefore (by omega)) hlast ?_
    have hframes : (run s calls).state.counter.frames = s.counter.frames + ended s.counter (run s calls).delivered := by
      rw [run_counter h hbefore,foldl_frames h.frames_lt,Nat.mod_eq_of_lt (by omega)]
    omega

/-- Once it is shut, the wrapper stays as it is and passes nothing on. -/
theorem run_shut (hshut : s.closing = true) (calls : List Call) : (run s calls).state = s ∧ (run s calls).passed = [] := by
  rw [run_passed]
  induction calls using List.reverseRecOn with
  | nil => exact ⟨rfl,rfl⟩
  | append_singleton calls call ih =>
    rw [run_concat]
    simp only [Trace.next,ih.1,ih.2,WsPoliceIo.pollRead,hshut,if_true,List.append_nil,and_self]

/-- Each byte that is delivered is policed once: it is fed to the scanner, each data frame that ends is counted,
a token is asked for each while there is no violation and for none twice, and nothing is passed on behind a
violation. -/
structure PolicedOnce (maxFrameSize : Option ℕ) (t : Trace) : Prop where
  fed : t.fed = t.delivered
  counted : t.state.counter.frames = ended (.new maxFrameSize) t.delivered
  charged : t.state.violated = flagNone → t.state.bucket.isSome → t.asked = t.state.counter.frames
  at_most_once : t.asked ≤ t.state.counter.frames
  caught : t.state.counter.violation ≠ .none → t.state.violated ≠ flagNone
  silent : t.state.violated ≠ flagNone → ∀ later, (run t.state later).passed = []

theorem sound_withFlag (rate maxFrameSize : Option ℕ) (now : ℚ) : Sound (.withFlag rate maxFrameSize now) :=
  ⟨FrameCounter.resumable_new maxFrameSize,Nat.two_pow_pos 64,iff_of_false nofun (fun h => h rfl),fun _ => rfl⟩

theorem level_withFlag (rate maxFrameSize : Option ℕ) (now : ℚ) : Level (.withFlag rate maxFrameSize now) := ⟨le_rfl,fun _ _ => rfl⟩

/-- A run polices each byte once just where every read that feeds the scanner starts with nothing in its buffer
and the frames can be counted. -/
theorem policed_once_iff (rate maxFrameSize : Option ℕ) (now : ℚ) (calls : List Call) :
    PolicedOnce maxFrameSize (run (.withFlag rate maxFrameSize now) calls) ↔
      FreshReads (.withFlag rate maxFrameSize now) calls ∧
        ended (.new maxFrameSize) (run (.withFlag rate maxFrameSize now) calls).delivered < 2 ^ 64 := by
  have hstart := sound_withFlag rate maxFrameSize now
  have hsound := run_sound hstart calls
  have hasked : (run (.withFlag rate maxFrameSize now) calls).state.charged = 0 + (run (.withFlag rate maxFrameSize now) calls).asked :=
    run_charged hstart calls
  rw [Nat.zero_add] at hasked
  constructor
  · intro h
    refine ⟨(run_fed_eq_iff _ calls).mp h.fed,?_⟩
    rw [← h.counted]
    exact hsound.frames_lt
  · rintro ⟨hfresh,hcount⟩
    have hzero : (WsPoliceIo.withFlag rate maxFrameSize now).counter.frames +
        ended (WsPoliceIo.withFlag rate maxFrameSize now).counter (run (.withFlag rate maxFrameSize now) calls).delivered =
        ended (.new maxFrameSize) (run (.withFlag rate maxFrameSize now) calls).delivered := Nat.zero_add _
    have hlevel := run_level hstart (level_withFlag rate maxFrameSize now) hfresh (by rwa [hzero])
    refine ⟨(run_fed_eq_iff _ calls).mpr hfresh,?_,?_,?_,?_,?_⟩
    · rw [run_counter hstart hfresh,foldl_frames hstart.frames_lt,hzero,Nat.mod_eq_of_lt hcount]
    · intro hok hbucket
      rw [← hasked]
      exact hlevel.charged_eq (by simpa [hok] using hsound.shut_iff) hbucket
    · rw [← hasked]
      exact hlevel.charged_le
    · intro hviolation hok
      exact hviolation (hsound.clean (by simpa [hok] using hsound.shut_iff))
    · exact fun hviolated later => (run_shut (hsound.shut_iff.mpr hviolated) later).2

/-- A text frame of no payload, masked. -/
def textFrame : Bytes := [0x81,0x80,1,2,3,4]

/-- Two reads of a frame each, the second over what could not be passed on yet. -/
def heldReads : List Call := [⟨[],.ready textFrame,fun _ => 0⟩,⟨textFrame,.ready textFrame,fun _ => 0⟩]

theorem not_freshReads_held : ¬ FreshReads (.withFlag none none 0) heldReads := by
  rintro ⟨-,hsecond,-⟩
  refine absurd (hsecond ?_ textFrame rfl) (List.cons_ne_nil _ _)
  have hclean : ((FrameCounter.new none).feed textFrame).violation = .none := by
    rw [FrameCounter.feed_eq_foldl (FrameCounter.resumable_new none)]
    decide
  have hpolice : (((WsPoliceIo.withFlag none none 0).scan textFrame).police fun _ => 0).1 = (WsPoliceIo.withFlag none none 0).scan textFrame := by
    rw [WsPoliceIo.police,if_neg fun h => h hclean]
    rfl
  exact congrArg WsPoliceIo.closing hpolice

/-- The frame that was held back is fed to the scanner again. -/
theorem held_frame_fed_again :
    ¬ ∀ (rate maxFrameSize : Option ℕ) (now : ℚ) (calls : List Call), PolicedOnce maxFrameSize (run (.withFlag rate maxFrameSize now) calls) :=
  fun h => not_freshReads_held ((run_fed_eq_iff _ heldReads).mp (h none none 0 heldReads).fed)

end Runs

end Dwara.Dataplane.WebSocket
