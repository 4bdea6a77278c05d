/-
# Zap.Mcp.Bridge — the locks and the line streams of the MCP bridge.

Each server has a mutex of its own, and the bridge has one. A call writes one line to its process and reads
one, under the lock of the server, and does not look at the id of the line. `Start` locks the server and, with
the lock held, runs `initialize`, whose `call` locks it again. A mutex is not re-entrant: once the process has
been started, `AddServer` waits for itself, and keeps the server's lock.

So no server is ever registered, a call that gets the lock of a server finds no process behind it, and a call to
a server with a process does not get the lock: nothing a process writes is read.
-/
import Mathlib.Logic.Function.Basic

namespace Zap.Mcp

/-! ## Operations, their locks and their lines -/

inductive Mutex
  | bridge
  | server (s : Nat)
  deriving DecidableEq

/-- What an operation still has to do, as far as locks, lines and registered servers go. -/
inductive Todo
  /-- The operation has returned, with an error or without. -/
  | done (ok : Bool)
  | lock (m : Mutex) (k : Todo)
  | unlock (m : Mutex) (k : Todo)
  /-- `s.cmd.Start()`: the process of a server is there, and its pipes. -/
  | launch (s : Nat) (k : Todo)
  /-- `sendLocked`, and whether it fails. -/
  | send (s id : Nat) (k : Bool → Todo)
  /-- `readLocked`, and whether it fails. -/
  | read (s id : Nat) (k : Bool → Todo)
  | register (s : Nat) (k : Todo)
  /-- `b.mu.RLock()`, the look into the two maps, and `b.mu.RUnlock()`: the server of the tool, if it is there. -/
  | lookup (k : Option Nat → Todo)
  /-- `range b.servers` -/
  | servers (k : List Nat → Todo)

def call (s id : Nat) (k : Bool → Todo) : Todo :=
  .lock (.server s) (.send s id fun
    | true => .read s id fun ok => .unlock (.server s) (k ok)
    | false => .unlock (.server s) (k false))

def send (s : Nat) (k : Bool → Todo) : Todo := .lock (.server s) (.send s 0 fun ok => .unlock (.server s) (k ok))

def initializeServer (s : Nat) (k : Bool → Todo) : Todo :=
  call s 1 fun
    | true => send s k
    | false => k false

/-- `MCPServer.Start`: with the lock held, `initialize` calls and sends. -/
def start (s : Nat) (started : Bool) (k : Bool → Todo) : Todo :=
  .lock (.server s) (if started then .launch s (initializeServer s fun ok => .unlock (.server s) (k ok))
    else .unlock (.server s) (k false))

def stopServer (s : Nat) (k : Todo) : Todo := .lock (.server s) (.unlock (.server s) k)

inductive Op
  /-- `AddServer`, by whether the process starts and whether its answer lists tools. -/
  | addServer (started listed : Bool)
  /-- `CallTool` through the bridge, with the id of its request: `nextReqID` takes no lock, so any. -/
  | callTool (id : Nat)
  /-- `MCPServer.CallTool`, on the server of the goroutine `s`. -/
  | callServer (s id : Nat)
  | stop

/-- The operation, as the goroutine `i`; the server it adds is its own. -/
def Op.todo (i : Nat) : Op → Todo
  | .addServer started listed => start i started fun
    | true => call i 2 fun ok =>
      if ok && listed then .lock .bridge (.register i (.unlock .bridge (.done true))) else stopServer i (.done false)
    | false => .done false
  | .callTool id => .lookup fun
    | none => .done false
    | some s => call s id .done
  | .callServer s id => call s id .done
  | .stop => .lock .bridge (.servers fun l => l.foldr stopServer (.unlock .bridge (.done true)))

variable {B : Type}

/-- A line of a process: an answer with the id of its request, or a line nobody asked for. -/
inductive Line (B : Type)
  | response (id : Nat) (body : B)
  | extra (body : B)

def Line.answers : Line B → Option Nat
  | .response id _ => some id
  | .extra _ => none

structure State (B : Type) where
  todo : List Todo
  /-- The goroutine that has the lock. -/
  held : Mutex → Option Nat := fun _ => none
  running : Nat → Bool := fun _ => false
  /-- Lines of each process, not yet read. -/
  out : Nat → List (Line B) := fun _ => []
  registered : List Nat := []
  /-- The line each call took its result or error from. -/
  returned : List (Nat × Line B) := []

/-- One goroutine moves. A lock that is held cannot be taken, not by its holder either. -/
inductive Step (σ : State B) : State B → Prop
  | lock {i : Nat} {m : Mutex} {k : Todo} (h : σ.todo[i]? = some (.lock m k)) (hfree : σ.held m = none) :
      Step σ { σ with todo := σ.todo.set i k, held := Function.update σ.held m (some i) }
  | unlock {i : Nat} {m : Mutex} {k : Todo} (h : σ.todo[i]? = some (.unlock m k)) :
      Step σ { σ with todo := σ.todo.set i k, held := Function.update σ.held m none }
  | launch {i s : Nat} {k : Todo} (h : σ.todo[i]? = some (.launch s k)) :
      Step σ { σ with todo := σ.todo.set i k, running := Function.update σ.running s true }
  /-- Without a process there is no pipe, or one that is closed. -/
  | send {i s id : Nat} {k : Bool → Todo} (h : σ.todo[i]? = some (.send s id k)) :
      Step σ { σ with todo := σ.todo.set i (k (σ.running s)) }
  | read {i s id : Nat} {k : Bool → Todo} {line : Line B} {rest : List (Line B)}
      (h : σ.todo[i]? = some (.read s id k)) (hout : σ.out s = line :: rest) :
      Step σ { σ with
        todo := σ.todo.set i (k true), out := Function.update σ.out s rest, returned := σ.returned ++ [(id, line)] }
  /-- The end of the stream, or a line that is not JSON. -/
  | readFail {i s id : Nat} {k : Bool → Todo} (h : σ.todo[i]? = some (.read s id k)) :
      Step σ { σ with todo := σ.todo.set i (k false) }
  | register {i s : Nat} {k : Todo} (h : σ.todo[i]? = some (.register s k)) :
      Step σ { σ with todo := σ.todo.set i k, registered := s :: σ.registered }
  | lookup {i : Nat} {k : Option Nat → Todo} (h : σ.todo[i]? = some (.lookup k)) (hfree : σ.held .bridge = none)
      (found : Option Nat) (hfound : ∀ s ∈ found, s ∈ σ.registered) :
      Step σ { σ with todo := σ.todo.set i (k found) }
  | servers {i : Nat} {k : List Nat → Todo} (h : σ.todo[i]? = some (.servers k)) {l : List Nat}
      (hl : l.Perm σ.registered) : Step σ { σ with todo := σ.todo.set i (k l) }

def init (ops : List Op) : State B := { todo := ops.mapIdx Op.todo }

/-- Runs, by the number of moves the operations have made. A process writes what it likes, when it likes. -/
inductive Run (ops : List Op) : Nat → State B → Prop
  | init : Run ops 0 (init ops)
  | step {n : Nat} {σ τ : State B} (h : Run ops n σ) (hstep : Step σ τ) : Run ops (n + 1) τ
  | write {n : Nat} {σ : State B} (h : Run ops n σ) (s : Nat) (line : Line B) (hs : σ.running s = true) :
      Run ops n { σ with out := Function.update σ.out s (σ.out s ++ [line]) }

/-- Some operation has not returned, and none can move, whatever the processes write. -/
def State.Deadlocked (σ : State B) : Prop :=
  (∃ t ∈ σ.todo, ∀ ok, t ≠ .done ok) ∧ ∀ out τ, ¬Step { σ with out := out } τ

/-- No run blocks, none goes on for ever, and an `AddServer` that has returned without an error has registered
its server. -/
structure Completes (B : Type) (ops : List Op) : Prop where
  moves : ∀ n, ∀ σ : State B, Run ops n σ → ¬σ.Deadlocked
  ends : ∃ bound, ∀ n, ∀ σ : State B, Run ops n σ → n ≤ bound
  added : ∀ n, ∀ σ : State B, Run ops n σ → ∀ i started listed, ops[i]? = some (.addServer started listed) →
    σ.todo[i]? = some (.done true) → i ∈ σ.registered

/-! ## Where the operations can be -/

/-- The moves left to an operation, if nothing is found and nothing works. -/
def Todo.size : Todo → Nat
  | .done _ => 0
  | .lock _ k | .unlock _ k | .launch _ k | .register _ k => k.size + 1
  | .send _ _ k | .read _ _ k => (k false).size + 1
  | .lookup k => (k none).size + 1
  | .servers k => (k []).size + 1

def movesLeft (l : List Todo) : Nat := l.foldr (fun t n => t.size + n) 0

def State.size (σ : State B) : Nat := movesLeft σ.todo

/-- Where an operation can be, and the lock it has there. -/
inductive Place (i : Nat) : Op → Todo → Option Mutex → Prop
  | done {o : Op} {ok : Bool} (ho : ∀ listed, o ≠ .addServer true listed)
      (hok : ∀ started listed, o = .addServer started listed → ok = false) : Place i o (.done ok) none
  | add {listed : Bool} :
      Place i (.addServer false listed) (.lock (.server i) (.unlock (.server i) (.done false))) none
  | failed {listed : Bool} : Place i (.addServer false listed) (.unlock (.server i) (.done false)) (some (.server i))
  | start {listed : Bool} {k : Todo} :
      Place i (.addServer true listed) (.lock (.server i) (.launch i (.lock (.server i) k))) none
  | launch {listed : Bool} {k : Todo} :
      Place i (.addServer true listed) (.launch i (.lock (.server i) k)) (some (.server i))
  /-- Waiting for the lock it has. -/
  | stuck {listed : Bool} {k : Todo} : Place i (.addServer true listed) (.lock (.server i) k) (some (.server i))
  | lookup {id : Nat} {k : Option Nat → Todo} (hk : k none = .done false) : Place i (.callTool id) (.lookup k) none
  | call {s id : Nat} {k : Bool → Todo} (hk : k false = .unlock (.server s) (.done false)) :
      Place i (.callServer s id) (.lock (.server s) (.send s id k)) none
  | send {s id : Nat} {k : Bool → Todo} (hk : k false = .unlock (.server s) (.done false)) :
      Place i (.callServer s id) (.send s id k) (some (.server s))
  | refused {s id : Nat} : Place i (.callServer s id) (.unlock (.server s) (.done false)) (some (.server s))
  | stop {k : List Nat → Todo} (hk : k [] = .unlock .bridge (.done true)) :
      Place i .stop (.lock .bridge (.servers k)) none
  | range {k : List Nat → Todo} (hk : k [] = .unlock .bridge (.done true)) : Place i .stop (.servers k) (some .bridge)
  | stopped : Place i .stop (.unlock .bridge (.done true)) (some .bridge)

/-- Every operation is at such a place and has the lock of the place; what runs is a server whose `AddServer` is
stuck; nothing is registered and nothing was read. -/
structure Steady (ops : List Op) (σ : State B) : Prop where
  length : σ.todo.length = ops.length
  place : ∀ i t, σ.todo[i]? = some t → ∃ o m, ops[i]? = some o ∧ Place i o t m ∧ ∀ x, σ.held x = some i ↔ m = some x
  holder : ∀ x i, σ.held x = some i → i < σ.todo.length
  running : ∀ s, σ.running s = true → σ.held (.server s) = some s ∧ ∃ k, σ.todo[s]? = some (.lock (.server s) k)
  registered : σ.registered = []
  returned : σ.returned = []

section Steady

variable {ops : List Op} {σ τ : State B}

theorem size_set {l : List Todo} {i : Nat} {t k : Todo} (h : l[i]? = some t) (hk : t.size = k.size + 1) :
    movesLeft (l.set i k) + 1 = movesLeft l := by
  induction l generalizing i with
  | nil => cases h
  | cons a l ih =>
    cases i with
    | zero =>
      cases h
      simp only [movesLeft, List.set_cons_zero, List.foldr_cons, hk]
      omega
    | succ i =>
      have := ih h
      simp only [movesLeft, List.set_cons_succ, List.foldr_cons] at this ⊢
      omega

/-- One operation moves to its next place, and changes at most its own locks. -/
theorem Steady.move (h : Steady ops σ) {i : Nat} {t k : Todo} {o : Op} {m : Option Mutex} {held : Mutex → Option Nat}
    (hi : σ.todo[i]? = some t) (ho : ops[i]? = some o) (hplace : Place i o k m)
    (hfree : ∀ k', t = .lock (.server i) k' → σ.held (.server i) = none)
    (hown : ∀ x, held x = some i ↔ m = some x) (hothers : ∀ x j, j ≠ i → (held x = some j ↔ σ.held x = some j)) :
    Steady ops { σ with todo := σ.todo.set i k, held := held } := by
  have hlt := (List.getElem?_eq_some_iff.mp hi).1
  have hget : ∀ j, j ≠ i → (σ.todo.set i k)[j]? = σ.todo[j]? := fun j hj => List.getElem?_set_ne hj.symm
  refine ⟨by simp [h.length], fun j t' hj => ?_, fun x j hx => ?_, fun s hs => ?_, h.registered, h.returned⟩
  · by_cases hij : j = i
    · subst hij
      rw [List.getElem?_set_self hlt] at hj
      cases hj
      exact ⟨o, m, ho, hplace, hown⟩
    · rw [hget j hij] at hj
      obtain ⟨o', m', ho', hp', hown'⟩ := h.place j t' hj
      exact ⟨o', m', ho', hp', fun x => (hothers x j hij).trans (hown' x)⟩
  · rw [List.length_set]
    by_cases hij : j = i
    · rwa [hij]
    · exact h.holder x j ((hothers x j hij).mp hx)
  · -- the server that runs is locked by its own `AddServer`, which waits, so it is not `i` that moves
    obtain ⟨hheld, k', hk'⟩ := h.running s hs
    have hsi : s ≠ i := by
      rintro rfl
      rw [hfree k' (Option.some.inj (hi.symm.trans hk'))] at hheld
      cases hheld
    exact ⟨(hothers _ s hsi).mpr hheld, k', by rw [hget s hsi, hk']⟩

section Moves

variable {i : Nat} {m : Mutex} {k t : Todo} {o : Op}

theorem Steady.acquire (h : Steady ops σ) (hi : σ.todo[i]? = some (.lock m k)) (hfree : σ.held m = none)
    (ho : ops[i]? = some o) (hnone : ∀ x, σ.held x ≠ some i) (hplace : Place i o k (some m)) :
    Steady ops { σ with todo := σ.todo.set i k, held := Function.update σ.held m (some i) } := by
  refine h.move hi ho hplace (fun k' hk' => by cases hk'; exact hfree) (fun x => ?_) fun x j hj => ?_
  · by_cases hx : x = m
    · simp [hx]
    · simp [hx, hnone x, Ne.symm hx]
  · by_cases hx : x = m
    · simp [hx, hfree, Ne.symm hj]
    · simp [hx]

theorem Steady.release (h : Steady ops σ) (hi : σ.todo[i]? = some (.unlock m k)) (ho : ops[i]? = some o)
    (hown : ∀ x, σ.held x = some i ↔ some m = some x) (hplace : Place i o k none) :
    Steady ops { σ with todo := σ.todo.set i k, held := Function.update σ.held m none } := by
  refine h.move hi ho hplace (fun k' hk' => by cases hk') (fun x => ?_) fun x j hj => ?_
  · by_cases hx : x = m
    · simp [hx]
    · simp [hx, hown x, Ne.symm hx]
  · by_cases hx : x = m
    · simp [hx, (hown m).mpr rfl, Ne.symm hj]
    · simp [hx]

theorem Steady.stay (h : Steady ops σ) (hi : σ.todo[i]? = some t) (hne : ∀ m k', t ≠ .lock m k') (ho : ops[i]? = some o)
    {m : Option Mutex} (hown : ∀ x, σ.held x = some i ↔ m = some x) (hplace : Place i o k m) :
    Steady ops { σ with todo := σ.todo.set i k } :=
  h.move hi ho hplace (fun k' hk' => absurd hk' (hne _ k')) hown fun _ _ _ => Iff.rfl

end Moves

/-- **One move**: every operation is at a place again, and one move less is left. -/
theorem Steady.step (h : Steady ops σ) (hstep : Step σ τ) : Steady ops τ ∧ τ.size + 1 = σ.size := by
  cases hstep with
  | @lock i m k hi hfree =>
    refine ⟨?_, size_set hi rfl⟩
    obtain ⟨o, m', ho, hplace, hown⟩ := h.place i _ hi
    have hnone : m' = none → ∀ x, σ.held x ≠ some i := by
      rintro rfl x hx
      cases (hown x).mp hx
    cases hplace with
    | add => exact h.acquire hi hfree ho (hnone rfl) .failed
    | start => exact h.acquire hi hfree ho (hnone rfl) .launch
    | stuck =>
      rw [(hown _).mpr rfl] at hfree
      cases hfree
    | call hk => exact h.acquire hi hfree ho (hnone rfl) (.send hk)
    | stop hk => exact h.acquire hi hfree ho (hnone rfl) (.range hk)
  | @unlock i m k hi =>
    refine ⟨?_, size_set hi rfl⟩
    obtain ⟨o, m', ho, hplace, hown⟩ := h.place i _ hi
    cases hplace with
    | failed => exact h.release hi ho hown (.done (by simp) (by simp))
    | refused => exact h.release hi ho hown (.done (by simp) (by simp))
    | stopped => exact h.release hi ho hown (.done (by simp) (by simp))
  | @launch i s k hi =>
    refine ⟨?_, size_set hi rfl⟩
    obtain ⟨o, m', ho, hplace, hown⟩ := h.place i _ hi
    cases hplace with
    | @launch listed k' =>
      -- the server runs from now on, and its `AddServer` will wait for the lock that it has
      have hnext := h.stay hi (by simp) ho hown (.stuck (k := k'))
      refine ⟨hnext.length, hnext.place, hnext.holder, fun s hs => ?_, hnext.registered, hnext.returned⟩
      by_cases hsi : s = i
      · subst hsi
        exact ⟨(hown _).mpr rfl, _, List.getElem?_set_self (List.getElem?_eq_some_iff.mp hi).1⟩
      · exact hnext.running s (by simpa [hsi] using hs)
  | @send i s id k hi =>
    obtain ⟨o, m', ho, hplace, hown⟩ := h.place i _ hi
    cases hplace with
    | send hk =>
      -- a server that runs is locked by another, who waits for the lock
      have hoff : σ.running s = false := by
        by_contra hon
        obtain ⟨hheld, k', hk'⟩ := h.running s (by simpa using hon)
        obtain rfl := Option.some.inj (hheld.symm.trans ((hown _).mpr rfl))
        cases Option.some.inj (hi.symm.trans hk')
      rw [hoff]
      exact ⟨h.stay hi (by simp) ho hown (hk.symm ▸ .refused), size_set hi rfl⟩
  | read hi | readFail hi | register hi =>
    -- no operation gets that far
    obtain ⟨o, m', ho, hplace, -⟩ := h.place _ _ hi
    cases hplace
  | @lookup i k hi hfree found hfound =>
    obtain ⟨o, m', ho, hplace, hown⟩ := h.place i _ hi
    cases hplace with
    | lookup hk =>
      obtain rfl : found = none := by
        rw [h.registered] at hfound
        exact Option.eq_none_iff_forall_not_mem.mpr fun s hs => List.not_mem_nil (hfound s hs)
      exact ⟨h.stay hi (by simp) ho hown (hk.symm ▸ .done (by simp) (by simp)), size_set hi rfl⟩
  | @servers i k hi l hl =>
    obtain ⟨o, m', ho, hplace, hown⟩ := h.place i _ hi
    cases hplace with
    | range hk =>
      obtain rfl : l = [] := List.Perm.eq_nil (h.registered ▸ hl)
      exact ⟨h.stay hi (by simp) ho hown (hk.symm ▸ .stopped), size_set hi rfl⟩

theorem steady_init (ops : List Op) : Steady (B := B) ops (init ops) := by
  refine ⟨by simp [init], fun i t hi => ?_, fun _ _ h => ?_, fun _ h => ?_, rfl, rfl⟩
  · obtain ⟨o, ho, rfl⟩ : ∃ o, ops[i]? = some o ∧ o.todo i = t := by
      simpa [init, List.getElem?_mapIdx] using hi
    have hfree : ∀ x, (init (B := B) ops).held x = some i ↔ none = some x := fun x => by simp [init]
    cases o with
    | addServer started listed =>
      cases started with
      | true => exact ⟨_, none, ho, .start, hfree⟩
      | false => exact ⟨_, none, ho, .add, hfree⟩
    | callTool id => exact ⟨_, none, ho, .lookup rfl, hfree⟩
    | callServer s id => exact ⟨_, none, ho, .call rfl, hfree⟩
    | stop => exact ⟨_, none, ho, .stop rfl, hfree⟩
  · cases h
  · cases h

/-- **Every run**: the operations are at their places, and no run is longer than what they have to do. -/
theorem Run.steady {n : Nat} (h : Run ops n σ) : Steady ops σ ∧ n + σ.size = (Mcp.init (B := B) ops).size := by
  induction h with
  | init => exact ⟨steady_init ops, Nat.zero_add _⟩
  | step _ hstep ih =>
    obtain ⟨hsteady, hsize⟩ := ih.1.step hstep
    exact ⟨hsteady, by omega⟩
  | write _ s line hs ih =>
    obtain ⟨⟨hlength, hplace, hholder, hrunning, hreg, hret⟩, hsize⟩ := ih
    exact ⟨⟨hlength, hplace, hholder, hrunning, hreg, hret⟩, hsize⟩

/-! ## Runs to the end -/

/-- No operation is reading: what the processes have written does not matter. -/
theorem Steady.step_out (h : Steady ops σ) {out : Nat → List (Line B)} (hstep : Step { σ with out := out } τ) :
    ∃ τ', Step σ τ' := by
  cases hstep with
  | lock hi hfree => exact ⟨_, .lock hi hfree⟩
  | unlock hi => exact ⟨_, .unlock hi⟩
  | launch hi => exact ⟨_, .launch hi⟩
  | send hi => exact ⟨_, .send hi⟩
  | read hi hout =>
    obtain ⟨o, m', ho, hplace, -⟩ := h.place _ _ hi
    cases hplace
  | readFail hi => exact ⟨_, .readFail hi⟩
  | register hi => exact ⟨_, .register hi⟩
  | lookup hi hfree found hfound => exact ⟨_, Step.lookup (σ := σ) hi hfree found hfound⟩
  | servers hi hl => exact ⟨_, Step.servers (σ := σ) hi hl⟩

/-- Every run can be carried on until no operation can move. -/
theorem Run.to_end {n : Nat} (h : Run ops n σ) : ∃ m, ∃ τ : State B, Run ops m τ ∧ ∀ ρ, ¬Step τ ρ := by
  -- on the moves that are left
  induction hsize : σ.size using Nat.strongRecOn generalizing n σ with
  | ind size ih =>
    subst hsize
    by_cases hstuck : ∀ ρ, ¬Step σ ρ
    · exact ⟨n, σ, h, hstuck⟩
    · obtain ⟨ρ, hρ⟩ := not_forall_not.mp hstuck
      have := (h.steady.1.step hρ).2
      exact ih ρ.size (by omega) (h.step hρ) rfl

theorem Steady.deadlocked_of_stuck (h : Steady ops σ) (hstuck : ∀ ρ, ¬Step σ ρ) {listed : Bool}
    (hmem : .addServer true listed ∈ ops) : σ.Deadlocked := by
  obtain ⟨i, hi⟩ := List.getElem?_of_mem hmem
  have hlt : i < σ.todo.length := by
    rw [h.length]
    exact (List.getElem?_eq_some_iff.mp hi).1
  refine ⟨⟨σ.todo[i], List.getElem_mem hlt, fun ok heq => ?_⟩, fun out τ hstep => ?_⟩
  · obtain ⟨o, m, ho, hplace, -⟩ := h.place i _ (List.getElem?_eq_getElem hlt)
    cases Option.some.inj (hi.symm.trans ho)
    rw [heq] at hplace
    cases hplace with
    | done hno => exact hno _ rfl
  · obtain ⟨τ', hτ'⟩ := h.step_out hstep
    exact hstuck τ' hτ'

/-- Whoever has a lock, or needs one that is free, can move; unless it has started a process. -/
theorem Place.moves {i : Nat} {o : Op} {t : Todo} {m : Option Mutex} (h : Place i o t m) (hi : σ.todo[i]? = some t)
    (ho : ∀ listed, o ≠ .addServer true listed) (hne : ∀ ok, t ≠ .done ok)
    (hfree : m = none → ∀ x, σ.held x = none) : ∃ τ, Step σ τ := by
  cases h with
  | done => exact absurd rfl (hne _)
  | add | call | stop => exact ⟨_, .lock hi (hfree rfl _)⟩
  | failed | refused | stopped => exact ⟨_, .unlock hi⟩
  | start | launch | stuck => exact absurd rfl (ho _)
  | lookup => exact ⟨_, .lookup hi (hfree rfl _) none (by simp)⟩
  | send => exact ⟨_, .send hi⟩
  | range => exact ⟨_, .servers hi (.refl _)⟩

theorem Steady.not_deadlocked (h : Steady ops σ) (hops : ∀ listed, .addServer true listed ∉ ops) :
    ¬σ.Deadlocked := by
  rintro ⟨⟨t, ht, hne⟩, hstuck⟩
  have hop : ∀ {i : Nat} {o : Op}, ops[i]? = some o → ∀ listed, o ≠ .addServer true listed := by
    rintro i o ho listed rfl
    exact hops listed (List.mem_of_getElem? ho)
  -- whoever has a lock can move, so none is held
  have hfree : ∀ x, σ.held x = none := by
    intro x
    by_contra hx
    obtain ⟨i, hi⟩ := Option.ne_none_iff_exists'.mp hx
    obtain ⟨t', hget⟩ : ∃ t', σ.todo[i]? = some t' := ⟨_, List.getElem?_eq_getElem (h.holder x i hi)⟩
    obtain ⟨o, m, ho, hplace, hown⟩ := h.place i t' hget
    cases (hown x).mp hi
    obtain ⟨τ, hτ⟩ := hplace.moves hget (hop ho) (by rintro ok rfl; cases hplace) (by simp)
    exact hstuck σ.out τ hτ
  obtain ⟨i, hi⟩ := List.getElem?_of_mem ht
  obtain ⟨o, m, ho, hplace, -⟩ := h.place i _ hi
  obtain ⟨τ, hτ⟩ := hplace.moves hi (hop ho) hne fun _ => hfree
  exact hstuck σ.out τ hτ

/-- Whoever has returned or waits for a lock that is held cannot move. -/
theorem no_step (h : ∀ t ∈ σ.todo, (∃ ok, t = .done ok) ∨ ∃ m k, t = .lock m k ∧ σ.held m ≠ none) (τ : State B) :
    ¬Step σ τ := by
  intro hstep
  cases hstep with
  | lock hi hfree =>
    obtain ⟨ok, heq⟩ | ⟨m, k, heq, hm⟩ := h _ (List.mem_of_getElem? hi)
    · cases heq
    · cases heq
      exact hm hfree
  | unlock hi | launch hi | send hi | read hi | readFail hi | register hi | lookup hi | servers hi =>
    obtain ⟨ok, heq⟩ | ⟨m, k, heq, -⟩ := h _ (List.mem_of_getElem? hi) <;> cases heq

end Steady

/-- **When the operations of a bridge come to their end**: exactly if none of them adds a server whose process
starts. -/
theorem operations_complete_iff (B : Type) (ops : List Op) :
    Completes B ops ↔ ∀ listed, .addServer true listed ∉ ops := by
  constructor
  · intro h listed hmem
    obtain ⟨n, τ, hrun, hstuck⟩ := Run.to_end (Run.init : Run ops 0 (init (B := B) ops))
    exact h.moves n τ hrun (hrun.steady.1.deadlocked_of_stuck hstuck hmem)
  intro hops
  refine ⟨fun n σ hrun => hrun.steady.1.not_deadlocked hops, ⟨(init (B := B) ops).size, fun n σ hrun => ?_⟩, ?_⟩
  · have := hrun.steady.2
    omega
  intro n σ hrun i started listed hi hdone
  obtain ⟨o, m, ho, hplace, -⟩ := hrun.steady.1.place i _ hdone
  cases Option.some.inj (hi.symm.trans ho)
  cases hplace with
  | done _ hok => cases hok _ _ rfl

/-- `AddServer`, with a process that answers, beside a `CallTool` and a `Stop` that both return. -/
theorem addServer_blocks_itself :
    ∃ σ : State Unit, Run [.addServer true true, .callTool 1, .stop] 6 σ ∧ σ.Deadlocked ∧
      σ.todo[1]? = some (.done false) ∧ σ.todo[2]? = some (.done true) := by
  have hinit : Run [.addServer true true, .callTool 1, .stop] 0 (init (B := Unit) _) := .init
  have hadd := (hinit.step (.lock (i := 0) rfl rfl)).step (.launch (i := 0) rfl)
  have hcall := hadd.step (.lookup (i := 1) rfl rfl none (by simp))
  have hlock := hcall.step (.lock (i := 2) rfl rfl)
  have hrun := (hlock.step (.servers (i := 2) rfl (.refl _))).step (.unlock (i := 2) rfl)
  refine ⟨_, hrun, hrun.steady.1.deadlocked_of_stuck (no_step fun t ht => ?_) List.mem_cons_self, rfl, rfl⟩
  rcases ht with _ | ⟨_, _ | ⟨_, _ | ⟨_, ht⟩⟩⟩
  · exact .inr ⟨_, _, rfl, Option.some_ne_none 0⟩
  · exact .inl ⟨_, rfl⟩
  · exact .inl ⟨_, rfl⟩
  · cases ht

end Zap.Mcp
