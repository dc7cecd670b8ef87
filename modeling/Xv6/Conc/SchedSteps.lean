/-
Purpose: What one step of the interleaved kernel does to the process table,
  the reference table and the positions of the procs.
-/
import Xv6.Conc.Sched
import Xv6.Proofs.ProcTable
import Xv6.Proofs.Replay

namespace Xv6

open Function PanicM

/-- The children that a proc which will sleep at `asleep` looks for. -/
def Ptable.kid (t : Ptable) (i : Slot) : Control → Slot → Bool
  | .waiting, j =>
    (t.proc j).parent == some i && (t.proc j).pgdir != (t.proc i).pgdir
  | .joining _, j =>
    (t.proc j).parent == some i && (t.proc j).pgdir == (t.proc i).pgdir
  | _, _ => false

/-- The positions from which a proc scans for zombies. -/
def Control.scans : Control → Bool
  | .waiting => true
  | .joining _ => true
  | _ => false

/-- Where a creator is after `allocproc`. -/
def Birth.first : Birth → Slot → Control
  | .fork, np => .copy np
  | .clone fcn arg stack, np => .fill (.clone fcn arg stack) np

/-- The birth that a call begins. -/
def Call.birth : Call → Option Birth
  | .fork => some .fork
  | .clone fcn arg stack => some (.clone fcn arg stack)
  | _ => none

/-- Where a creator is after its child is counted. -/
def Birth.counted : Birth → Slot → Control
  | .fork, _ => .user
  | .clone fcn arg stack, np => .stack fcn arg stack np

/-- The record of a new proc when its creator has filled it in. -/
def Birth.filled (birth : Birth) (child parent : Proc) (i : Slot) : Proc :=
  match birth with
  | .fork => child.inherit parent i
  | .clone _ _ _ => { child.inherit parent i with pgdir := parent.pgdir }

/-- What a step does, with the guard under which it is taken. -/
inductive Turn (t : Ptable) (control : Slot → Control) :
    Move → Ptable → (Slot → Control) → Prop where
  | dispatch {i : Slot} (runnable : (t.proc i).state = .runnable) : Turn t control (.dispatch i)
        (t.set i { t.proc i with state := .running }) control
  | tick {i : Slot} (running : (t.proc i).state = .running) : Turn t control (.tick i)
        (t.set i { t.proc i with state := .runnable }) control
  | exit {i : Slot} {t' : Ptable} (running : (t.proc i).state = .running)
      (here : control i = .user) (exited : Exited t i t') :
      Turn t control (.call i .exit) t' control
  | scan {i : Slot} {move : Move} {asleep : Control} {chan : Option Slot}
      {r : Option Int} {t' : Ptable}
      (running : (t.proc i).state = .running)
      (scans : asleep.scans = true)
      (here : control i = .user ∨ control i = asleep)
      (scanned : Scanned (t.set i { t.proc i with chan := chan }) i
        ((t.set i { t.proc i with chan := chan }).kid i asleep) r t') :
      Turn t control move t' (update control i (if r.isSome then .user else asleep))
  | refuse {i : Slot} {call : Call} {t' : Ptable}
      (running : (t.proc i).state = .running) (here : control i = .user)
      (claimed : Claimed t none t') :
      Turn t control (.call i call) t' control
  | create {i np : Slot} {call : Call} {t' : Ptable} {birth : Birth}
      (begins : call.birth = some birth)
      (running : (t.proc i).state = .running) (here : control i = .user)
      (claimed : Claimed t (some np) t') :
      Turn t control (.call i call) t' (update (update control np .user) i (birth.first np))
  | loadFailed {i : Slot} {call : Call}
      (running : (t.proc i).state = .running) (here : control i = .user) :
      Turn t control (.call i call) t control
  | load {i : Slot} {call : Call} (new : Loaded)
      (running : (t.proc i).state = .running) (here : control i = .user) :
      Turn t control (.call i call) t (update control i (.commit new))
  | commit {i : Slot} {new : Loaded} {t' : Ptable} (running : (t.proc i).state = .running)
      (here : control i = .commit new) (execed : Execed t i new.dir t') :
      Turn t control (.go i) t' (update control i .user)
  | kill {i : Slot} {call : Call} {t' : Ptable}
      (running : (t.proc i).state = .running) (here : control i = .user)
      (killed : Killed t t') : Turn t control (.call i call) t' control
  | copy {i np : Slot} {ok : Bool} {t' : Ptable}
      (running : (t.proc i).state = .running) (here : control i = .copy np)
      (copied : Copied t np ok t') :
      Turn t control (.go i) t' (update control i (if ok then .fill .fork np else .user))
  | fill {i np : Slot} (birth : Birth) (running : (t.proc i).state = .running)
      (here : control i = .fill birth np) :
      Turn t control (.go i) (t.set np (birth.filled (t.proc np) (t.proc i) i))
        (update control i (.publish birth np))
  | publish {i np : Slot} (birth : Birth) (running : (t.proc i).state = .running)
      (here : control i = .publish birth np) :
      Turn t control (.go i) (t.set np { t.proc np with state := .runnable })
        (update control i (.count birth np))
  | count {i np : Slot} (birth : Birth) (running : (t.proc i).state = .running)
      (here : control i = .count birth np) :
      Turn t control (.go i)
        { t with refs := RefTable.retain t.refs (t.proc np).pgdir }
        (update control i (birth.counted np))
  | stackFailed {i np : Slot} {fcn arg stack : Nat} (running : (t.proc i).state = .running)
      (here : control i = .stack fcn arg stack np) :
      Turn t control (.go i) t (update control i .user)
  | stack {i np : Slot} {fcn arg stack : Nat} (running : (t.proc i).state = .running)
      (here : control i = .stack fcn arg stack np) :
      Turn t control (.go i) (t.set np
          { t.proc np with
            ustack := stack
            tf :=
              { (t.proc np).tf with esp := threadSp stack, eip := fcn } })
        (update control i .user)
  | pause {i : Slot} (running : (t.proc i).state = .running) (here : control i = .user) :
      Turn t control (.pause i) (t.set i { t.proc i with chan := none, state := .sleeping }) control
  | rouse {i : Slot} (asleep : (t.proc i).state = .sleeping) (chan : (t.proc i).chan = none) :
      Turn t control (.rouse i) (t.set i { t.proc i with state := .runnable }) control

namespace Sched

variable {img : Image} {m after : Sched}
variable {α : Type} {i : Slot} {call : Call} {s : Kernel}

theorem run_some {program : KM α} {next : α → Slot → Control}
    (ran : m.run program next = some after) :
    ∃ value, program m.kernel = .ok (value, after.kernel) ∧
      after.control = next value ∧ after.fresh = m.fresh := by
  unfold run at ran
  cases outcome : program m.kernel with
  | error reason =>
    rw [outcome] at ran
    cases ran
  | ok result =>
    rw [outcome] at ran
    cases ran
    exact ⟨result.1, rfl, rfl, rfl⟩

theorem run_wp {program : KM α} {next : α → Slot → Control}
    {Q : α → Kernel → Prop} (rule : wp program Q AnyPanic m.kernel)
    (ran : m.run program next = some after) :
    ∃ value, Q value after.kernel ∧ after.control = next value := by
  obtain ⟨value, returned, control, -⟩ := run_some ran
  exact ⟨value, wp_ok rule returned, control⟩

theorem isIn_iff {state : ProcState} :
    m.isIn i state = true ↔ (m.kernel.ptable.proc i).state = state := by
  unfold isIn
  exact beq_iff_eq

theorem create_turn {birth : Birth} (begins : call.birth = some birth)
    (running : (m.kernel.ptable.proc i).state = .running) (here : m.control i = .user)
    (ran : m.create i birth birth.first = some after) :
    Turn m.kernel.ptable m.control (.call i call) after.kernel.ptable
      after.control := by
  unfold create at ran
  have rule := wp_allocproc_table (s := m.kernel)
  unfold wp at rule
  split at ran
  · rename_i kernel outcome
    rw [outcome] at rule
    cases ran
    exact .refuse running here rule
  · rename_i np kernel outcome
    rw [outcome] at rule
    cases ran
    exact .create begins running here rule
  · cases ran

/-- A scan that starts here leaves the caller in user mode or asleep. -/
theorem scan_turn (asleep : Control) {move : Move}
    {chan : Option Slot} {r : Option Int}
    (running : (m.kernel.ptable.proc i).state = .running)
    (scans : asleep.scans = true)
    (here : m.control i = .user ∨ m.control i = asleep)
    {t : Ptable}
    (start : t = m.kernel.ptable.set i
      { m.kernel.ptable.proc i with chan := chan })
    (scanned : Scanned t i (t.kid i asleep) r after.kernel.ptable)
    (control : after.control = m.scanned i asleep r) :
    Turn m.kernel.ptable m.control move after.kernel.ptable
      after.control := by
  subst start
  rw [control]
  cases r with
  | none | some value => exact .scan running scans here scanned

theorem enter_turn (running : (m.kernel.ptable.proc i).state = .running)
    (here : m.control i = .user) (ran : m.enter img i call = some after) :
    Turn m.kernel.ptable m.control (.call i call) after.kernel.ptable
      after.control := by
  have self : m.kernel.ptable = m.kernel.ptable.set i
      { m.kernel.ptable.proc i with
        chan := (m.kernel.ptable.proc i).chan } :=
    (Ptable.set_self _ i).symm
  cases call with
  | exit =>
    obtain ⟨_, exited, control⟩ := run_wp wp_exit_table ran
    rw [control]
    exact .exit running here exited
  | wait =>
    obtain ⟨r, scanned, control⟩ := run_wp (wp_wait_table img) ran
    exact scan_turn .waiting running rfl (.inl here) self scanned control
  | join stack =>
    obtain ⟨r, scanned, control⟩ := run_wp (wp_join_table img) ran
    exact scan_turn (.joining stack) running rfl (.inl here) self scanned control
  | fork | clone fcn arg stack => exact create_turn rfl running here ran
  | exec file argv =>
    obtain ⟨loaded, same, control⟩ := run_wp
      ((execLoad_frames img i file argv).ptable.to_wp m.kernel) ran
    rw [same, control]
    cases loaded with
    | none => exact .loadFailed running here
    | some new => exact .load new running here
  | kill pid =>
    obtain ⟨_, killed, control⟩ := run_wp wp_kill_table ran
    rw [control]
    exact .kill running here killed

/-- After `sleep` the scan starts from a cleared channel. -/
theorem wp_woken {scan : KM α} {Q : Ptable → α → Kernel → Prop}
    (rule : ∀ cleared : Kernel, wp scan (Q cleared.ptable) AnyPanic cleared) :
    wp (woken i scan) (Q (s.ptable.set i { s.proc i with chan := none })) AnyPanic s :=
  rule (s.setProc i { s.proc i with chan := none })

theorem wp_countRef_table {np : Slot} : wp (countRef np) (fun _ after => after.ptable =
        { s.ptable with
          refs := RefTable.retain s.ptable.refs (s.ptable.proc np).pgdir })
      AnyPanic s := by
  unfold countRef addRef
  simp only [wp_bind, wp_get, wp_modify]
  rfl

theorem wp_updProc_eq {update : Proc → Proc} : wp (updProc i update) (fun _ after =>
      after.ptable = s.ptable.set i (update (s.ptable.proc i))) AnyPanic s :=
  wp_updProc_table fun _ eq => eq

theorem wp_switch_table : wp (switch i) (fun _ after => after.ptable =
      s.ptable.set i { s.ptable.proc i with state := .running }) AnyPanic s := by
  unfold switch
  rw [wp_bind]
  refine (switchuvm_frames i).ptable.wp fun _ switched same => ?_
  refine wp_updProc_table fun after eq => ?_
  rw [eq, same]

theorem proceed_turn {control : Control}
    (running : (m.kernel.ptable.proc i).state = .running) (here : m.control i = control)
    (ran : m.proceed img i control = some after) :
    Turn m.kernel.ptable m.control (.go i) after.kernel.ptable
      after.control := by
  cases control with
  | user => cases ran
  | waiting =>
    obtain ⟨r, scanned, control⟩ := run_wp
      (wp_woken (Q := fun t r after => Scanned t i (t.kid i .waiting) r
        after.ptable) fun _ => wp_wait_table img) ran
    exact scan_turn .waiting running rfl (.inr here) rfl scanned control
  | joining stack =>
    obtain ⟨r, scanned, control⟩ := run_wp
      (wp_woken (Q := fun t r after => Scanned t i (t.kid i (.joining stack))
        r after.ptable) fun _ => wp_join_table img) ran
    exact scan_turn (.joining stack) running rfl (.inr here) rfl scanned control
  | commit new =>
    obtain ⟨_, execed, control⟩ := run_wp (wp_commitExec_table img) ran
    rw [control]
    exact .commit running here execed
  | copy np =>
    obtain ⟨ok, copied, control⟩ := run_wp (wp_forkCopy_table img) ran
    rw [control]
    cases ok with
    | true | false => exact .copy running here copied
  | fill birth np =>
    cases birth with
    | fork =>
      obtain ⟨_, filled, control⟩ := run_wp wp_forkFill_table ran
      rw [control, filled]
      exact .fill .fork running here
    | clone fcn arg stack =>
      rw [proceed] at ran
      obtain ⟨_, filled, control⟩ := run_wp wp_cloneFill_table ran
      rw [control, filled]
      exact .fill (.clone fcn arg stack) running here
  | publish birth np =>
    rw [proceed] at ran
    obtain ⟨_, published, control⟩ := run_wp wp_updProc_eq ran
    rw [control, published]
    exact .publish birth running here
  | count birth np =>
    cases birth with
    | fork | clone fcn arg stack =>
      rw [proceed] at ran
      obtain ⟨_, counted, control⟩ := run_wp wp_countRef_table ran
      rw [control, counted]
      exact .count _ running here
  | stack fcn arg stack np =>
    obtain ⟨ok, table, control⟩ := run_wp wp_cloneStack_table ran
    rw [control, table]
    cases ok with
    | true => exact .stack running here
    | false => exact .stackFailed running here

theorem step_turn {move : Move} (taken : m.step img move = some after) :
    Turn m.kernel.ptable m.control move after.kernel.ptable
      after.control := by
  cases move with
  | dispatch i =>
    obtain ⟨runnable, ran⟩ := Option.ite_none_right_eq_some.mp taken
    obtain ⟨middle, switching, rfl⟩ := Option.map_eq_some_iff.mp ran
    obtain ⟨_, switched, control⟩ := run_wp wp_switch_table switching
    dsimp only
    rw [switched, control]
    exact .dispatch (isIn_iff.mp runnable)
  | tick i =>
    obtain ⟨running, ran⟩ := Option.ite_none_right_eq_some.mp taken
    obtain ⟨_, yielded, control⟩ := run_wp wp_updProc_eq ran
    rw [yielded, control]
    exact .tick (isIn_iff.mp running)
  | call i call =>
    obtain ⟨running, ran⟩ := Option.ite_none_right_eq_some.mp taken
    split at ran
    · rename_i here
      exact enter_turn (isIn_iff.mp running) here ran
    · cases ran
  | go i =>
    obtain ⟨running, ran⟩ := Option.ite_none_right_eq_some.mp taken
    exact proceed_turn (isIn_iff.mp running) rfl ran
  | pause i =>
    obtain ⟨running, ran⟩ := Option.ite_none_right_eq_some.mp taken
    split at ran
    · rename_i here
      obtain ⟨_, paused, control⟩ := run_wp wp_updProc_eq ran
      rw [paused, control]
      exact .pause (isIn_iff.mp running) here
    · cases ran
  | rouse i =>
    obtain ⟨asleep, ran⟩ := Option.ite_none_right_eq_some.mp taken
    rw [Bool.and_eq_true, Option.isNone_iff_eq_none] at asleep
    obtain ⟨_, roused, control⟩ := run_wp wp_updProc_eq ran
    rw [roused, control]
    exact .rouse (isIn_iff.mp asleep.1) asleep.2

/-! ## Closed runs -/

variable (img m) in
/-- `step`, with the copy of an address space evaluated quickly. -/
def replay : Move → Option Sched
  | .go i =>
    match m.control i with
    | .copy np =>
      if m.isIn i .running then
        m.run (forkCopyQuick img i np) fun
          | true => m.goto i (.fill .fork np)
          | false => m.goto i .user
      else none
    | _ => m.step img (.go i)
  | move => m.step img move

theorem replay_eq_step : replay img = step img := by
  funext m move
  cases move with
  | go i =>
    unfold replay
    dsimp only
    split
    · rename_i np here
      rw [step, here, ← forkCopy_eq_quick]
      rfl
    · rfl
  | _ => rfl

/-- The small machine with every proc in user mode. -/
def small : Sched where
  kernel := smallStart
  control := fun _ => .user
  fresh := fun _ => none

theorem small_starts : small.Starts smallImage where
  boot := ⟨smallBoot, [], smallBoot_boots, smallStart_userinit⟩
  control := fun _ => rfl
  fresh := fun _ => rfl

theorem small_reaches {moves : List Move} {after : Sched}
    (ran : moves.foldlM (replay smallImage) small = some after) :
    Reaches smallImage (fun _ _ => True) after := by
  rw [replay_eq_step] at ran
  exact Reach.foldlM (.start small_starts) ran

end Sched

end Xv6
