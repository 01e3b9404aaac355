import Cronymax.Atomic.History
import Cronymax.Table.Edits

/-! Terminal sessions and the requests for them.  Every workspace has a manager with a table of its
sessions, and the requests after the first carry only the id of the terminal. -/

namespace Cronymax.Terminal

structure PtySession where
  number : Nat
deriving DecidableEq

/-- What is done to a session. -/
inductive Act where
  | start (session : PtySession) (cwd shell : String) (cols rows : UInt16)
  | write (session : PtySession) (data : String)
  | resize (session : PtySession) (cols rows : UInt16)
  | stop (session : PtySession)
deriving DecidableEq

structure Entry where
  session : PtySession
  cwd : String
deriving DecidableEq

/-- `PtySessionManager`: the sessions of a workspace. -/
structure PtySessionManager where
  sessions : Table String Entry

namespace PtySessionManager

variable (m : PtySessionManager) (id : String)

def new : PtySessionManager := ⟨∅⟩

/-- `create`: an id that is there gives way. -/
def create (session : PtySession) (cwd : String) : PtySessionManager :=
  ⟨m.sessions.insert id ⟨session, cwd⟩⟩

/-- `session not found` is an error that the handlers ignore. -/
def write (data : String) : List Act :=
  ((m.sessions.lookup id).map fun e => Act.write e.session data).toList

/-- `resize`. -/
def resize (cols rows : UInt16) : List Act :=
  ((m.sessions.lookup id).map fun e => Act.resize e.session cols rows).toList

/-- `close`. -/
def close : PtySessionManager × List Act :=
  match m.sessions.lookup id with
  | some e => (⟨m.sessions.erase id⟩, [.stop e.session])
  | none => (m, [])

theorem close_acts :
    (m.close id).2 = (((m.sessions.lookup id).map (·.session)).map Act.stop).toList := by
  unfold close
  cases m.sessions.lookup id with
  | none => rfl
  | some e => rfl

theorem lookup_close (id' : String) :
    (m.close id).1.sessions.lookup id' = if id' = id then none else m.sessions.lookup id' := by
  unfold close
  by_cases hId : id' = id
  · subst hId
    rw [if_pos rfl]
    cases hLookup : m.sessions.lookup id' with
    | none => exact hLookup
    | some e => exact Finmap.lookup_erase id' m.sessions
  · rw [if_neg hId]
    cases m.sessions.lookup id with
    | none => rfl
    | some e => exact Finmap.lookup_erase_ne hId

end PtySessionManager

inductive ControlRequest where
  | terminalStart (terminalId workspaceRoot : String) (shell : Option String) (cols rows : Option UInt16)
  | terminalInput (terminalId data : String)
  | terminalResize (terminalId : String) (cols rows : UInt16)
  | terminalStop (terminalId : String)

inductive ControlResponse where
  | ack
  | data (sessionId : String)
  | err (message : String)
deriving DecidableEq

/-- The managers by their workspaces. -/
structure Services where
  managers : Table String PtySessionManager
  started : Nat

namespace Services

variable (s : Services)

/-- The first key of the map, in some order. -/
def firstKey (order : List String) : Option String :=
  (order ++ Table.inOrder s.managers.keys).find? (· ∈ s.managers)

/-- `map.values().next()`. -/
def nextManager (order : List String) : Option PtySessionManager :=
  (s.firstKey order).bind s.managers.lookup

def managerOf (workspaceRoot : String) : PtySessionManager :=
  (s.managers.lookup workspaceRoot).getD .new

def setManager (workspaceRoot : String) (m : PtySessionManager) : Services :=
  { s with managers := s.managers.insert workspaceRoot m }

/-- `starts` is what `PtySession::start` answers. -/
def handleTerminalStart (terminalId workspaceRoot : String) (shell : Option String)
    (cols rows : Option UInt16) (starts : Except String Unit) : Services × List Act × ControlResponse :=
  let m := s.managerOf workspaceRoot
  match starts with
  | .error message => (s.setManager workspaceRoot m, [], .err message)
  | .ok () =>
    let session : PtySession := ⟨s.started⟩
    let s' := s.setManager workspaceRoot (m.create terminalId session workspaceRoot)
    ({ s' with started := s.started + 1 },
      [.start session workspaceRoot (shell.getD "/bin/zsh") (cols.getD 100) (rows.getD 30)],
      .data terminalId)

/-- `handle_terminal_input`: any manager that comes first. -/
def handleTerminalInput (terminalId data : String) (order : List String) :
    Services × List Act × ControlResponse :=
  (s, ((s.nextManager order).map (·.write terminalId data)).getD [], .ack)

/-- `handle_terminal_resize`. -/
def handleTerminalResize (terminalId : String) (cols rows : UInt16) (order : List String) :
    Services × List Act × ControlResponse :=
  (s, ((s.nextManager order).map (·.resize terminalId cols rows)).getD [], .ack)

/-- `handle_terminal_stop`. -/
def handleTerminalStop (terminalId : String) (order : List String) :
    Services × List Act × ControlResponse :=
  match s.firstKey order with
  | none => (s, [], .ack)
  | some workspaceRoot =>
    let closed := (s.managerOf workspaceRoot).close terminalId
    (s.setManager workspaceRoot closed.1, closed.2, .ack)

/-- The handler of a request. -/
def handle (starts : Except String Unit) (order : List String) :
    ControlRequest → Services × List Act × ControlResponse
  | .terminalStart id root shell cols rows => s.handleTerminalStart id root shell cols rows starts
  | .terminalInput id data => s.handleTerminalInput id data order
  | .terminalResize id cols rows => s.handleTerminalResize id cols rows order
  | .terminalStop id => s.handleTerminalStop id order

def sessionAt (workspaceRoot id : String) : Option PtySession :=
  (s.managers.lookup workspaceRoot).bind fun m => (m.sessions.lookup id).map (·.session)

/-- Some manager has an entry for the session. -/
def Holds (session : PtySession) : Prop := ∃ root id, s.sessionAt root id = some session

end Services

end Cronymax.Terminal

/-! Which session a request for a terminal reaches.  The handlers look in the manager that the iteration
over the managers comes to first, which need not be the one that has the terminal; and a start puts its
entry in the place of another one without stopping that one's shell. -/

namespace Cronymax.Terminal

open Atomic

inductive Event where
  | request (request : ControlRequest) (starts : Except String Unit) (order : List String)
  | exit (session : PtySession)

/-- The services, with the sessions that run and where each terminal was started. -/
structure World where
  services : Services
  homes : Table String (String × PtySession)
  running : Finset PtySession

namespace World

def start : World := ⟨⟨∅, 0⟩, ∅, ∅⟩

variable (w : World)

/-- The session of a terminal, by its last start. -/
def own (id : String) : Option PtySession := (w.homes.lookup id).map (·.2)

/-- Where the terminals are after a request. -/
def settle (starts : Except String Unit) : ControlRequest → Table String (String × PtySession)
  | .terminalStart id root _ _ _ =>
    match starts with
    | .ok () => w.homes.insert id (root, ⟨w.services.started⟩)
    | .error _ => w.homes
  | .terminalStop id => w.homes.erase id
  | _ => w.homes

end World

def Act.affect (running : Finset PtySession) : Act → Finset PtySession
  | .start session _ _ _ _ => insert session running
  | .stop session => running.erase session
  | _ => running

def World.step (w : World) : Event → World
  | .request r starts order =>
    let (services, acts, _) := w.services.handle starts order r
    ⟨services, w.settle starts r, acts.foldl Act.affect w.running⟩
  | .exit session => { w with running := w.running.erase session }

/-- What a request should do. -/
def World.wanted (w : World) : ControlRequest → List Act
  | .terminalStart _ _ _ _ _ => []
  | .terminalInput id data => ((w.own id).map (Act.write · data)).toList
  | .terminalResize id cols rows => ((w.own id).map (Act.resize · cols rows)).toList
  | .terminalStop id => ((w.own id).map Act.stop).toList

def Act.IsStart : Act → Prop
  | .start _ _ _ _ _ => True
  | _ => False

instance : DecidablePred Act.IsStart
  | .start _ _ _ _ _ => isTrue trivial
  | .write _ _ | .resize _ _ _ | .stop _ => isFalse id

/-- An event does to the sessions that are there what it has to, a stop removes the session, and every
running session has an entry. -/
structure World.Right (w : World) (e : Event) : Prop where
  reaches : ∀ r starts order, e = .request r starts order →
    (w.services.handle starts order r).2.1.filter (¬·.IsStart) = w.wanted r
  removes : ∀ id starts order, e = .request (.terminalStop id) starts order →
    ∀ session, w.own id = some session → ¬(w.step e).services.Holds session
  keeps : ∀ session ∈ (w.step e).running, (w.step e).services.Holds session

/-- The iteration comes first to the manager of the terminal's workspace; for a terminal that is not
there, to a manager that has no entry of the id. -/
structure World.Finds (w : World) (id : String) (order : List String) : Prop where
  there : ∀ root session, w.homes.lookup id = some (root, session) →
    w.services.firstKey order = some root
  gone : w.homes.lookup id = none →
    ∀ root, w.services.firstKey order = some root → w.services.sessionAt root id = none

/-- No terminal is started over one that runs, and the first manager that has the id is the one it was
started in. -/
def World.Proper (w : World) : Event → Prop
  | .request (.terminalStart id root _ _ _) starts _ =>
    starts = .ok () → ∀ session, w.services.sessionAt root id = some session → session ∉ w.running
  | .request (.terminalInput id _) _ order => w.Finds id order
  | .request (.terminalResize id _ _) _ order => w.Finds id order
  | .request (.terminalStop id) _ order => w.Finds id order
  | .exit _ => True

namespace Services

variable (s : Services)

theorem sessionAt_setManager (root : String) (m : PtySessionManager) (root' id : String) :
    (s.setManager root m).sessionAt root' id =
      if root' = root then (m.sessions.lookup id).map (·.session) else s.sessionAt root' id := by
  unfold sessionAt setManager
  rw [Table.lookup_insert_if]
  split <;> rfl

theorem sessionAt_managerOf (root id : String) :
    ((s.managerOf root).sessions.lookup id).map (·.session) = s.sessionAt root id := by
  unfold managerOf sessionAt
  cases s.managers.lookup root with
  | none => rfl
  | some m => rfl

/-- The session that a request reaches. -/
def reached (id : String) (order : List String) : Option PtySession :=
  (s.firstKey order).bind fun root => s.sessionAt root id

theorem input_acts (id data : String) (order : List String) :
    (s.handleTerminalInput id data order).2.1 =
      ((s.reached id order).map (Act.write · data)).toList := by
  unfold handleTerminalInput nextManager reached sessionAt
  cases s.firstKey order with
  | none => rfl
  | some root =>
    cases hLookup : s.managers.lookup root with
    | none => simp [hLookup]
    | some m => simp [hLookup, PtySessionManager.write, Function.comp_def]

theorem resize_acts (id : String) (cols rows : UInt16) (order : List String) :
    (s.handleTerminalResize id cols rows order).2.1 =
      ((s.reached id order).map (Act.resize · cols rows)).toList := by
  unfold handleTerminalResize nextManager reached sessionAt
  cases s.firstKey order with
  | none => rfl
  | some root =>
    cases hLookup : s.managers.lookup root with
    | none => simp [hLookup]
    | some m => simp [hLookup, PtySessionManager.resize, Function.comp_def]

theorem stop_acts (id : String) (order : List String) :
    (s.handleTerminalStop id order).2.1 = ((s.reached id order).map Act.stop).toList := by
  unfold handleTerminalStop reached
  cases s.firstKey order with
  | none => rfl
  | some root =>
    rw [Option.bind_some, ← sessionAt_managerOf]
    exact (s.managerOf root).close_acts id

theorem stop_sessionAt (id : String) (order : List String) (root' id' : String) :
    (s.handleTerminalStop id order).1.sessionAt root' id' =
      if s.firstKey order = some root' ∧ id' = id then none else s.sessionAt root' id' := by
  unfold handleTerminalStop
  cases s.firstKey order with
  | none => simp
  | some root =>
    dsimp only
    rw [sessionAt_setManager]
    by_cases hRoot : root' = root
    · subst hRoot
      rw [if_pos rfl, PtySessionManager.lookup_close, ← sessionAt_managerOf]
      by_cases hId : id' = id
      · rw [if_pos hId, if_pos ⟨rfl, hId⟩, Option.map_none]
      · rw [if_neg hId, if_neg fun h => hId h.2]
    · rw [if_neg hRoot, if_neg fun h => hRoot (Option.some.inj h.1).symm]

theorem start_error_sessionAt (id root : String) (shell : Option String) (cols rows : Option UInt16)
    (message : String) (root' id' : String) :
    (s.handleTerminalStart id root shell cols rows (.error message)).1.sessionAt root' id' =
      s.sessionAt root' id' := by
  unfold handleTerminalStart
  dsimp only
  rw [sessionAt_setManager]
  split
  · rename_i hRoot
    rw [hRoot, sessionAt_managerOf]
  · rfl

theorem start_sessionAt (id root : String) (shell : Option String) (cols rows : Option UInt16)
    (root' id' : String) :
    (s.handleTerminalStart id root shell cols rows (.ok ())).1.sessionAt root' id' =
      if root' = root ∧ id' = id then some ⟨s.started⟩ else s.sessionAt root' id' := by
  have hManagers : (s.handleTerminalStart id root shell cols rows (.ok ())).1.sessionAt root' id' =
      (s.setManager root ((s.managerOf root).create id ⟨s.started⟩ root)).sessionAt root' id' := rfl
  rw [hManagers, sessionAt_setManager]
  by_cases hRoot : root' = root
  · subst hRoot
    rw [if_pos rfl, PtySessionManager.create, Table.lookup_insert_if]
    by_cases hId : id' = id
    · simp [hId]
    · simp [hId, sessionAt_managerOf]
  · simp [hRoot]

end Services

namespace World

/-- Sessions have numbers of shells that have been started, no session has two entries, a terminal's
session is in its workspace, and every running session has an entry. -/
structure Sound (w : World) : Prop where
  fresh : ∀ root id session, w.services.sessionAt root id = some session →
    session.number < w.services.started
  apart : ∀ root id root' id' session, w.services.sessionAt root id = some session →
    w.services.sessionAt root' id' = some session → root' = root ∧ id' = id
  home : ∀ id root session, w.homes.lookup id = some (root, session) →
    w.services.sessionAt root id = some session
  kept : ∀ session ∈ w.running, w.services.Holds session

theorem sound_start : start.Sound where
  fresh _ _ _ h := by cases h
  apart _ _ _ _ _ h _ := by cases h
  home _ _ _ h := by cases h
  kept _ h := absurd h (Finset.notMem_empty _)

variable {w : World}

theorem finds_iff (h : w.Sound) (id : String) (order : List String) :
    w.Finds id order ↔ w.services.reached id order = w.own id := by
  unfold own
  cases hHome : w.homes.lookup id with
  | none =>
    rw [Option.map_none, Services.reached, Option.bind_eq_none_iff]
    refine ⟨fun hFinds => hFinds.gone hHome, fun hNone => ⟨fun root session hSome => ?_, fun _ => hNone⟩⟩
    cases hHome.symm.trans hSome
  | some home =>
    obtain ⟨root, session⟩ := home
    have hThere := h.home id root session hHome
    rw [Option.map_some, Services.reached]
    constructor
    · intro hFinds
      rw [hFinds.there root session hHome, Option.bind_some, hThere]
    · intro hReached
      obtain ⟨root', hFirst, hOther⟩ := Option.bind_eq_some_iff.mp hReached
      obtain ⟨rfl, -⟩ := h.apart root id root' id session hThere hOther
      refine ⟨fun root' session' hSome => ?_, fun hNone => ?_⟩
      · cases hHome.symm.trans hSome
        exact hFirst
      · cases hHome.symm.trans hNone

theorem right_of_quiet (h : w.Sound) (r : ControlRequest) (starts : Except String Unit)
    (order : List String) (f : PtySession → Act) (id : String)
    (hServices : (w.services.handle starts order r).1 = w.services)
    (hActs : (w.services.handle starts order r).2.1 = ((w.services.reached id order).map f).toList)
    (hWanted : w.wanted r = ((w.own id).map f).toList) (hNotStart : ∀ n, ¬(f n).IsStart)
    (hQuiet : ∀ running n, (f n).affect running = running) (hNotStop : ∀ id, r ≠ .terminalStop id)
    (hInj : Function.Injective f) :
    w.Right (.request r starts order) ↔ w.services.reached id order = w.own id := by
  have hFilter : ((w.services.handle starts order r).2.1).filter (¬·.IsStart) =
      (w.services.handle starts order r).2.1 := by
    rw [hActs, List.filter_eq_self]
    intro x hx
    obtain ⟨n, -, rfl⟩ := Option.map_eq_some_iff.mp (Option.mem_toList.mp hx)
    simpa using hNotStart n
  have hReach : ((w.services.handle starts order r).2.1).filter (¬·.IsStart) = w.wanted r ↔
      w.services.reached id order = w.own id := by
    rw [hFilter, hActs, hWanted]
    cases w.services.reached id order <;> cases w.own id <;> simp [hInj.eq_iff]
  have hRunning : (w.step (.request r starts order)).running = w.running := by
    show ((w.services.handle starts order r).2.1).foldl Act.affect w.running = w.running
    rw [hActs]
    cases w.services.reached id order with
    | none => rfl
    | some n => exact hQuiet w.running n
  refine ⟨fun hRight => hReach.mp (hRight.reaches r starts order rfl), fun hSame => ⟨?_, ?_, ?_⟩⟩
  · rintro _ _ _ ⟨rfl, rfl, rfl⟩
    exact hReach.mpr hSame
  · rintro id starts' order' hEq
    cases hEq
    exact absurd rfl (hNotStop id)
  · intro session hSession
    rw [hRunning] at hSession
    have hHolds := h.kept session hSession
    rw [← hServices] at hHolds
    exact hHolds

theorem right_stop_iff (h : w.Sound) (id : String) (starts : Except String Unit) (order : List String) :
    w.Right (.request (.terminalStop id) starts order) ↔
      w.services.reached id order = w.own id := by
  have hActs := w.services.stop_acts id order
  have hReach : ((w.services.handleTerminalStop id order).2.1).filter (¬·.IsStart) =
      w.wanted (.terminalStop id) ↔ w.services.reached id order = w.own id := by
    rw [hActs, wanted]
    cases w.services.reached id order <;> cases w.own id <;> simp [Act.IsStart]
  constructor
  · exact fun hRight => hReach.mp (hRight.reaches _ starts order rfl)
  · intro hSame
    have hAfter (root' id' : String) := w.services.stop_sessionAt id order root' id'
    refine ⟨?_, ?_, ?_⟩
    · rintro _ _ _ ⟨rfl, rfl, rfl⟩
      exact hReach.mpr hSame
    · rintro _ _ _ ⟨⟨rfl⟩, rfl, rfl⟩ session hOwn ⟨root', id', hHeld⟩
      replace hHeld := (hAfter root' id').symm.trans hHeld
      split at hHeld
      · cases hHeld
      · rename_i hOther
        obtain ⟨root, hFirst, hThere⟩ := Option.bind_eq_some_iff.mp (hSame.trans hOwn)
        obtain ⟨rfl, rfl⟩ := h.apart root id root' id' session hThere hHeld
        exact hOther ⟨hFirst, rfl⟩
    · intro session hSession
      replace hSession : session ∈ (w.services.handleTerminalStop id order).2.1.foldl Act.affect
          w.running := hSession
      rw [hActs] at hSession
      have hBoth : session ∈ w.running ∧ w.services.reached id order ≠ some session := by
        cases hReached : w.services.reached id order with
        | none =>
          rw [hReached] at hSession
          exact ⟨hSession, by simp⟩
        | some n =>
          rw [hReached] at hSession
          obtain ⟨hNe, hIn⟩ := Finset.mem_erase.mp hSession
          exact ⟨hIn, fun hEq => hNe (Option.some.inj hEq).symm⟩
      obtain ⟨root', id', hHeld⟩ := h.kept session hBoth.1
      refine ⟨root', id', (hAfter root' id').trans ?_⟩
      rw [if_neg, hHeld]
      rintro ⟨hFirst, rfl⟩
      exact hBoth.2 (Option.bind_eq_some_iff.mpr ⟨root', hFirst, hHeld⟩)

theorem right_start_error (h : w.Sound) (id root : String) (shell : Option String)
    (cols rows : Option UInt16) (message : String) (order : List String) :
    w.Right (.request (.terminalStart id root shell cols rows) (.error message) order) := by
  refine ⟨?_, ?_, fun session hSession => ?_⟩
  · rintro _ _ _ ⟨rfl, rfl, rfl⟩
    rfl
  · rintro _ _ _ hEq
    cases hEq
  · obtain ⟨root', id', hHeld⟩ := h.kept session hSession
    refine ⟨root', id', ?_⟩
    rw [← hHeld]
    exact w.services.start_error_sessionAt id root shell cols rows message root' id'

theorem right_start_iff (h : w.Sound) (id root : String) (shell : Option String)
    (cols rows : Option UInt16) (order : List String) :
    w.Right (.request (.terminalStart id root shell cols rows) (.ok ()) order) ↔
      ∀ session, w.services.sessionAt root id = some session → session ∉ w.running := by
  have hAfter (root' id' : String) := w.services.start_sessionAt id root shell cols rows root' id'
  constructor
  · intro hRight session hThere hRunning
    obtain ⟨root', id', hHeld⟩ := hRight.keeps session (Finset.mem_insert_of_mem hRunning)
    replace hHeld := (hAfter root' id').symm.trans hHeld
    split at hHeld
    · cases hHeld
      exact absurd (h.fresh root id _ hThere) (lt_irrefl _)
    · rename_i hOther
      exact hOther (h.apart root id root' id' session hThere hHeld)
  · intro hFree
    refine ⟨?_, ?_, fun session hSession => ?_⟩
    · rintro _ _ _ ⟨rfl, rfl, rfl⟩
      rfl
    · rintro _ _ _ hEq
      cases hEq
    · rcases Finset.mem_insert.mp hSession with rfl | hRunning
      · exact ⟨root, id, (hAfter root id).trans (if_pos ⟨rfl, rfl⟩)⟩
      · obtain ⟨root', id', hHeld⟩ := h.kept session hRunning
        refine ⟨root', id', (hAfter root' id').trans ?_⟩
        rw [if_neg, hHeld]
        rintro ⟨rfl, rfl⟩
        exact hFree session hHeld hRunning

theorem right_iff (h : w.Sound) (e : Event) : w.Right e ↔ w.Proper e := by
  cases e with
  | exit session =>
    refine iff_of_true ⟨fun _ _ _ hEq => ?_, fun _ _ _ hEq => ?_, fun session' hSession => ?_⟩ trivial
    · cases hEq
    · cases hEq
    · exact h.kept session' (Finset.mem_of_mem_erase hSession)
  | request r starts order =>
    cases r with
    | terminalStart id root shell cols rows =>
      cases starts with
      | error message =>
        refine iff_of_true (right_start_error h id root shell cols rows message order) fun hEq => ?_
        cases hEq
      | ok u =>
        rw [right_start_iff h id root shell cols rows order]
        exact ⟨fun hFree _ => hFree, fun hProper => hProper rfl⟩
    | terminalInput id data =>
      refine (right_of_quiet h (.terminalInput id data) starts order (Act.write · data) id rfl
        (w.services.input_acts id data order) rfl (fun _ h => h) (fun _ _ => rfl)
        (fun _ hEq => by cases hEq) fun _ _ hEq => ?_).trans (finds_iff h id order).symm
      exact (Act.write.inj hEq).1
    | terminalResize id cols rows =>
      refine (right_of_quiet h (.terminalResize id cols rows) starts order (Act.resize · cols rows) id rfl
        (w.services.resize_acts id cols rows order) rfl (fun _ h => h) (fun _ _ => rfl)
        (fun _ hEq => by cases hEq) fun _ _ hEq => ?_).trans (finds_iff h id order).symm
      exact (Act.resize.inj hEq).1
    | terminalStop id => exact (right_stop_iff h id starts order).trans (finds_iff h id order).symm

theorem Sound.quiet (h : w.Sound) {r : ControlRequest} {starts : Except String Unit}
    {order : List String} (hServices : (w.services.handle starts order r).1 = w.services)
    (hHomes : w.settle starts r = w.homes)
    (hKept : ∀ session ∈ (w.step (.request r starts order)).running,
      (w.step (.request r starts order)).services.Holds session) :
    (w.step (.request r starts order)).Sound := by
  have hSame : (w.step (.request r starts order)).services = w.services := hServices
  have hHomes' : (w.step (.request r starts order)).homes = w.homes := hHomes
  refine ⟨?_, ?_, ?_, hKept⟩
  · rw [hSame]
    exact h.fresh
  · rw [hSame]
    exact h.apart
  · rw [hSame, hHomes']
    exact h.home

theorem Sound.stop (h : w.Sound) {id : String} {starts : Except String Unit} {order : List String}
    (hFinds : w.Finds id order)
    (hKept : ∀ session ∈ (w.step (.request (.terminalStop id) starts order)).running,
      (w.step (.request (.terminalStop id) starts order)).services.Holds session) :
    (w.step (.request (.terminalStop id) starts order)).Sound := by
  have hAfter (root' id' : String) :
      (w.step (.request (.terminalStop id) starts order)).services.sessionAt root' id' =
        if w.services.firstKey order = some root' ∧ id' = id then none
        else w.services.sessionAt root' id' := w.services.stop_sessionAt id order root' id'
  have hBefore {root' id' : String} {session : PtySession}
      (hHeld : (w.step (.request (.terminalStop id) starts order)).services.sessionAt root' id' =
        some session) : w.services.sessionAt root' id' = some session := by
    rw [hAfter] at hHeld
    split at hHeld
    · cases hHeld
    · exact hHeld
  have hStarted : (w.step (.request (.terminalStop id) starts order)).services.started =
      w.services.started := by
    show (w.services.handleTerminalStop id order).1.started = w.services.started
    unfold Services.handleTerminalStop
    cases w.services.firstKey order <;> rfl
  refine ⟨fun root' id' session hHeld => ?_, fun root₁ id₁ root₂ id₂ session h₁ h₂ => ?_,
    fun id' root' session hHome => ?_, hKept⟩
  · rw [hStarted]
    exact h.fresh root' id' session (hBefore hHeld)
  · exact h.apart root₁ id₁ root₂ id₂ session (hBefore h₁) (hBefore h₂)
  · replace hHome : (w.homes.erase id).lookup id' = some (root', session) := hHome
    have hOther : id' ≠ id := by
      rintro rfl
      rw [Finmap.lookup_erase] at hHome
      cases hHome
    rw [Finmap.lookup_erase_ne hOther] at hHome
    rw [hAfter, if_neg fun hBoth => hOther hBoth.2]
    exact h.home id' root' session hHome

theorem Sound.create (h : w.Sound) {id root : String} {shell : Option String} {cols rows : Option UInt16}
    {order : List String}
    (hKept : ∀ session ∈
      (w.step (.request (.terminalStart id root shell cols rows) (.ok ()) order)).running,
      (w.step (.request (.terminalStart id root shell cols rows) (.ok ()) order)).services.Holds session) :
    (w.step (.request (.terminalStart id root shell cols rows) (.ok ()) order)).Sound := by
  have hAfter (root' id' : String) :
      (w.step (.request (.terminalStart id root shell cols rows) (.ok ()) order)).services.sessionAt
          root' id' =
        if root' = root ∧ id' = id then some ⟨w.services.started⟩ else w.services.sessionAt root' id' :=
    w.services.start_sessionAt id root shell cols rows root' id'
  refine ⟨fun root' id' session hHeld => ?_, fun root₁ id₁ root₂ id₂ session h₁ h₂ => ?_,
    fun id' root' session hHome => ?_, hKept⟩
  · show session.number < w.services.started + 1
    rw [hAfter] at hHeld
    split at hHeld
    · cases hHeld
      exact Nat.lt_succ_self _
    · exact Nat.lt_succ_of_lt (h.fresh root' id' session hHeld)
  · rw [hAfter] at h₁ h₂
    split at h₁
    · rename_i hFirst
      cases h₁
      split at h₂
      · rename_i hSecond
        exact ⟨hSecond.1.trans hFirst.1.symm, hSecond.2.trans hFirst.2.symm⟩
      · exact absurd (h.fresh root₂ id₂ _ h₂) (lt_irrefl _)
    · split at h₂
      · cases h₂
        exact absurd (h.fresh root₁ id₁ _ h₁) (lt_irrefl _)
      · exact h.apart root₁ id₁ root₂ id₂ session h₁ h₂
  · replace hHome : (w.homes.insert id (root, ⟨w.services.started⟩)).lookup id' =
        some (root', session) := hHome
    rw [Table.lookup_insert_if] at hHome
    rw [hAfter]
    split at hHome
    · rename_i hSame
      cases hHome
      exact if_pos ⟨rfl, hSame⟩
    · rename_i hOther
      rw [if_neg fun hBoth => hOther hBoth.2]
      exact h.home id' root' session hHome

theorem Sound.step (h : w.Sound) {e : Event} (hRight : w.Right e) : (w.step e).Sound := by
  have hProper := (right_iff h e).mp hRight
  cases e with
  | exit session => exact ⟨h.fresh, h.apart, h.home, hRight.keeps⟩
  | request r starts order =>
    cases r with
    | terminalStart id root shell cols rows =>
      cases starts with
      | error message =>
        have hAfter (root' id' : String) :
            (w.step (.request (.terminalStart id root shell cols rows) (.error message) order)).services.sessionAt
              root' id' = w.services.sessionAt root' id' :=
          w.services.start_error_sessionAt id root shell cols rows message root' id'
        refine ⟨fun root' id' session hHeld => ?_, fun root₁ id₁ root₂ id₂ session h₁ h₂ => ?_,
          fun id' root' session hHome => ?_, hRight.keeps⟩
        · exact h.fresh root' id' session ((hAfter root' id').symm.trans hHeld)
        · rw [hAfter] at h₁ h₂
          exact h.apart root₁ id₁ root₂ id₂ session h₁ h₂
        · exact (hAfter root' id').trans (h.home id' root' session hHome)
      | ok u => exact h.create hRight.keeps
    | terminalInput id data => exact h.quiet rfl rfl hRight.keeps
    | terminalResize id cols rows => exact h.quiet rfl rfl hRight.keeps
    | terminalStop id => exact h.stop hProper hRight.keeps

/-- In a run every event is right if and only if every event meets the condition. -/
theorem requests_reach_own_iff (events : List Event) :
    History.Each step Right start events ↔ History.Each step Proper start events :=
  History.each_congr sound_start (fun _ _ h hRight => h.step hRight) (fun _ e h => right_iff h e) events

/-- With two workspaces the input for the terminal of one is looked for in the other; and a second start
with an id in use leaves the first shell without an entry. -/
theorem terminals_mixed_up :
    ¬History.Each step Right start
      [.request (.terminalStart "t1" "/a" none none none) (.ok ()) [],
        .request (.terminalStart "t2" "/b" none none none) (.ok ()) [],
        .request (.terminalInput "t1" "ls") (.ok ()) ["/b"]] ∧
    ¬History.Each step Right start
      [.request (.terminalStart "t1" "/a" none none none) (.ok ()) [],
        .request (.terminalStart "t1" "/a" none none none) (.ok ()) []] := by
  refine ⟨fun ⟨_, _, hRight, _⟩ => ?_, fun ⟨hFirst, hSecond, _⟩ => ?_⟩
  · exact absurd (hRight.reaches _ _ _ rfl) (by decide)
  · have hFree := (right_iff (sound_start.step hFirst) _).mp hSecond rfl ⟨0⟩ (by decide)
    exact hFree (by decide)

end World

end Cronymax.Terminal
