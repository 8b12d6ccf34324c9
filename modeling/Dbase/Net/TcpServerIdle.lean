/-
  Dbase.Net.TcpServerIdle — when the idle check closes a connection, and how often it has heartbeats
  started, in any interleaving of the check with the io loops.

  The check decides on one loop and the io loop acts later, without looking again. What the check decides
  on is right when it decides, if the tick it has loaded is that of the last data (or heartbeat) and the
  part of a microsecond that `toTick` cuts off makes no difference; it is still right when the io loop
  acts, if no data came in meanwhile and no second heartbeat was queued behind the first.
-/

import Dbase.Net.TcpServerRegistry

namespace Dbase.Net.TcpServer

open Dbase.Net.Buffer (SysRead SysWrite Buf)
open Dbase.Net.TcpConnection.Steps (Sys Task Label)

variable {cfg : Config} {s s' : Server} {a : Act}

/-! ## What the check finds -/

/-- A timeout is over since the tick of a reading, and not since the reading. -/
def cutShort (timeout reading now : Nat) : Bool :=
  decide (fromTick (toTick reading) + timeout * nsPerMs ≤ now ∧ now < reading + timeout * nsPerMs)

theorem elapsed {timeout now tick : Nat} (h0 : 0 < timeout) (h : timeout ≤ sinceTick now tick) :
    tick ≠ 0 ∧ fromTick tick + timeout * nsPerMs ≤ now := by
  unfold sinceTick at h
  split at h
  · omega
  · rename_i htick
    refine ⟨htick, ?_⟩
    have hle : timeout * nsPerMs ≤ now - fromTick tick := (Nat.le_div_iff_mul_le (by decide)).mp h
    have hpos : 0 < timeout * nsPerMs := Nat.mul_pos h0 (by decide)
    omega

/-- A timeout that is over since the tick of a reading is over since the reading. -/
theorem elapsed_since {timeout reading now : Nat} (h0 : 0 < timeout) (h : timeout ≤ sinceTick now (toTick reading))
    (hcut : cutShort timeout reading now = false) : reading + timeout * nsPerMs ≤ now := by
  obtain ⟨-, hle⟩ := elapsed h0 h
  by_contra hlt
  have : cutShort timeout reading now = true := decide_eq_true ⟨hle, by omega⟩
  rw [this] at hcut
  cases hcut

def Server.idles (s : Server) : List Nat :=
  match s.check with
  | some c => c.idleConnections
  | none => []

def Server.beats (s : Server) : List Nat :=
  match s.check with
  | some c => c.heartbeatConnections
  | none => []

/-- The check is about to close a connection. -/
def evicting (s : Server) (i : Nat) (m : Member) : Prop := .forceClose i ∈ s.queues m.ioLoop ∨ i ∈ s.idles

instance (i : Nat) (m : Member) : Decidable (evicting s i m) := inferInstanceAs (Decidable (_ ∨ _))

/-- The tick that a check has loaded is that of the reading, and cutting it short makes no difference. -/
def timely (timeout tick now : Nat) : Option Nat → Bool
  | some reading => decide (tick = toTick reading) && !cutShort timeout reading now
  | none => true

/-- Where the check finds a connection idle, no data has come in since it loaded the tick or was about to be
    noted then, and `toTick` has cut nothing off that matters; and none comes in while the check is about to
    close the connection. -/
def evictsInTime (cfg : Config) (s : Server) : Act → Bool
  | .check =>
    match s.check.map Check.stage with
    | some (.idleNow i tick) =>
      !decide (0 < cfg.idleTimeout ∧ sinceTick s.clock tick ≥ cfg.idleTimeout) ||
        (s.members[i]?).all fun m => timely cfg.idleTimeout tick s.clock m.lastData
    | _ => true
  | .connection i (.read r) => (s.members[i]?).all fun m => !receives cfg m.sys r || !decide (evicting s i m)
  | _ => true

/-- Where the check has a heartbeat queued, none of the connection is queued already, and the tick it has
    loaded is that of the last heartbeat, cut short by nothing that matters. -/
def beatsInTime (cfg : Config) (s : Server) : Act → Bool
  | .check =>
    match s.check.map Check.stage with
    | some (.lastProbeAt i idle) =>
      !decide (idle ≥ cfg.heartbeatInterval) || (s.members[i]?).all fun m =>
        decide (m.lastProbeAtTick ≠ 0) || decide (.heartbeat i ∉ s.queues m.ioLoop)
    | some (.probeNow i idle tick) =>
      !decide (idle ≥ cfg.heartbeatInterval ∧ sinceTick s.clock tick ≥ cfg.heartbeatInterval) ||
        (s.members[i]?).all fun m =>
          decide (.heartbeat i ∉ s.queues m.ioLoop) && timely cfg.heartbeatInterval tick s.clock m.lastBeat
    | _ => true
  | _ => true

/-! ## What a step is to one connection -/

/-- A functor that the check queues. -/
def Functor.ofCheck : Functor → Bool
  | .heartbeat _ => true
  | .forceClose _ => true
  | .idle _ => true
  | _ => false

/-- Nothing of the check happens to a connection; what is queued for it may get less. -/
structure Calm (s s' : Server) (m m' : Member) : Prop where
  clock : s.clock ≤ s'.clock
  check : s'.check = s.check
  queued : ∀ f : Functor, f.ofCheck = true → (s'.queues m'.ioLoop).count f ≤ (s.queues m.ioLoop).count f
  lastData : m'.lastData = m.lastData
  lastBeat : m'.lastBeat = m.lastBeat
  lastProbe : m'.lastProbeAtTick = m.lastProbeAtTick
  touch : m'.touch = m.touch
  establishes : m.establishes ≤ m'.establishes

/-- What a step is to connection `j`. -/
inductive Turn (cfg : Config) (s : Server) (j : Nat) (m : Member) : Act → Server → Member → Prop
  | calm {a : Act} {s' : Server} {m' : Member} : Calm s s' m m' → Turn cfg s j m a s' m'
  | hears {r : SysRead} {m' : Member} : receives cfg m.sys r = true → m'.ioLoop = m.ioLoop → m'.lastData = some s.clock →
      m'.lastBeat = none → Turn cfg s j m (.connection j (.read r)) (s.put j m') m'
  | stores {m' : Member} : m.touch ≠ .done → m'.ioLoop = m.ioLoop → m'.lastData = m.lastData → m'.lastBeat = m.lastBeat →
      Turn cfg s j m (.touch j) (s.put j m') m'
  | establishes {loop : Nat} {rest : List Functor} {a : Act} {m' : Member} :
      s.queues loop = .connectEstablished j :: rest → m.establishes = 0 → m'.ioLoop = m.ioLoop →
      m'.lastData = m.lastData → m'.lastBeat = m.lastBeat → Turn cfg s j m a ((s.pop loop rest).put j m') m'
  | beats {rest : List Functor} {r : SysWrite} {m' : Member} : s.queues m.ioLoop = .heartbeat j :: rest →
      m.touch = .done → m'.ioLoop = m.ioLoop → m'.lastData = m.lastData → m'.lastBeat = some s.clock →
      m'.lastProbeAtTick = toTick s.clock → m'.touch = m.touch → m'.establishes = m.establishes → m.establishes ≠ 0 →
      Turn cfg s j m (.functor m.ioLoop r) ((s.pop m.ioLoop rest).put j m') m'
  | startsCheck {order : List Nat} : s.check = none → order.Perm (s.connections.map (·.2)) →
      Turn cfg s j m (.startCheck order) { s with check := some ⟨.visit, order, [], []⟩ } m
  | looks {c c' : Check} {i : Nat} {m₀ : Member} : s.check = some c → c.current = some (i, c') → s.members[i]? = some m₀ →
      Turn cfg s j m .check { s with check := some (checkStage cfg c' i m₀ s.clock) } m
  | queuesOne {c c' : Check} {i : Nat} {f : Functor} {m₀ : Member} : s.check = some c → c.current = none →
      c.pop cfg = some (i, f, c') → s.members[i]? = some m₀ →
      Turn cfg s j m .check ({ s with check := some c' }.queueInLoop m₀.ioLoop f) m
  | endsCheck : Turn cfg s j m .check { s with check := none } m

theorem Calm.put {t : Server} {i : Nat} {m m' x : Member} (h : Calm s t m m') : Calm s (t.put i x) m m' :=
  ⟨h.clock, h.check, h.queued, h.lastData, h.lastBeat, h.lastProbe, h.touch, h.establishes⟩

theorem Calm.refl (s : Server) (m : Member) : Calm s s m m := ⟨le_rfl, rfl, fun _ _ => le_rfl, rfl, rfl, rfl, rfl, le_rfl⟩

/-- A functor that the check does not queue joins a queue. -/
theorem Calm.queueInLoop {t : Server} {m m' : Member} (h : Calm s t m m') {loop : Nat} {f : Functor}
    (hf : f.ofCheck = false) : Calm s (t.queueInLoop loop f) m m' := by
  refine ⟨h.clock, h.check, fun g hg => ?_, h.lastData, h.lastBeat, h.lastProbe, h.touch, h.establishes⟩
  have hne : f ≠ g := by
    rintro rfl
    rw [hf] at hg
    cases hg
  rw [count_queueInLoop, if_neg fun h => hne h.2]
  exact h.queued g hg

theorem Calm.pop {loop : Nat} {f : Functor} {rest : List Functor} (hq : s.queues loop = f :: rest) (m : Member) :
    Calm s (s.pop loop rest) m m := by
  refine ⟨le_rfl, rfl, fun g _ => ?_, rfl, rfl, rfl, rfl, le_rfl⟩
  rw [count_pop hq]
  exact Nat.le_add_right _ _

/-- A change of the connection that is none of the check's. -/
theorem Calm.member {t : Server} {m m' m'' : Member} (h : Calm s t m m') (hloop : m''.ioLoop = m'.ioLoop)
    (hdata : m''.lastData = m'.lastData) (hbeat : m''.lastBeat = m'.lastBeat)
    (hprobe : m''.lastProbeAtTick = m'.lastProbeAtTick) (htouch : m''.touch = m'.touch)
    (hest : m'.establishes ≤ m''.establishes) : Calm s t m m'' :=
  ⟨h.clock, h.check, fun f hf => by rw [hloop]; exact h.queued f hf, hdata.trans h.lastData, hbeat.trans h.lastBeat,
    hprobe.trans h.lastProbe, htouch.trans h.touch, h.establishes.trans hest⟩

theorem heard_calm {m : Member} {a : Label} {sys : Sys} (h : ∀ r, a = .read r → receives cfg m.sys r = false) :
    heard cfg s m a sys = { m with sys := sys } := by
  unfold heard
  split
  · rename_i r
    rw [h r rfl, if_neg Bool.false_ne_true]
  · rfl

theorem idle_touch {loop j : Nat} {m : Member} (h : s.idle loop = true) (hj : s.members[j]? = some m)
    (hloop : m.ioLoop = loop) : m.touch = .done := by
  simp only [Server.idle, Bool.and_eq_true, List.all_eq_true] at h
  have := h.2 m (List.mem_of_getElem? hj)
  simp only [hloop, ne_eq, not_true_eq_false, decide_false, Bool.false_or, Bool.and_eq_true, decide_eq_true_eq] at this
  exact this.2

theorem Move.turn (h : Move cfg s a s') (hs : Sound cfg s) {j : Nat} {m m' : Member} (hj : s.members[j]? = some m)
    (hk : (life s j m).Kept) (hj' : s'.members[j]? = some m') : Turn cfg s j m a s' m' := by
  have hsame : s'.members = s.members → m' = m := by
    intro h
    rw [h, hj] at hj'
    exact (Option.some.inj hj').symm
  cases h with
  | acceptsHere =>
    obtain rfl := put_register_old hj hj'
    exact .calm ⟨le_rfl, rfl, fun _ _ => le_rfl, rfl, rfl, rfl, rfl, le_rfl⟩
  | accepts hloop =>
    change (register cfg s).members[j]? = _ at hj'
    rw [register_old hj] at hj'
    cases hj'
    have hreg : Calm s (register cfg s) m m := ⟨le_rfl, rfl, fun _ _ => le_rfl, rfl, rfl, rfl, rfl, le_rfl⟩
    exact .calm (hreg.queueInLoop rfl)
  | callsBack hm =>
    rcases put_cases rfl hm hj hj' with ⟨rfl, rfl, rfl⟩ | ⟨hne, rfl⟩
    · exact .calm (((Calm.refl s m).put.queueInLoop rfl).member rfl rfl rfl rfl rfl le_rfl)
    · exact .calm ((Calm.refl s m').put.queueInLoop rfl)
  | @lives i m₀ a sys hm hest hmay hclose hsys =>
    by_cases hrec : ∃ r, a = .read r ∧ receives cfg m₀.sys r = true
    · obtain ⟨r, rfl, hrec⟩ := hrec
      simp only [stepped, hrec, if_true] at hj' ⊢
      rcases put_cases rfl hm hj hj' with ⟨rfl, rfl, rfl⟩ | ⟨hne, rfl⟩
      · exact .hears hrec rfl rfl rfl
      · exact .calm (Calm.refl s m').put
    · have hheard : heard cfg s m₀ a sys = { m₀ with sys := sys } :=
        heard_calm fun r hr => eq_false_of_ne_true fun h => hrec ⟨r, hr, h⟩
      rcases stepped_eq cfg i m₀ a sys s with h | h
      all_goals
        rw [h, hheard] at hj' ⊢
        rcases put_cases rfl hm hj hj' with ⟨rfl, rfl, rfl⟩ | ⟨hne, rfl⟩
      · exact .calm ((Calm.refl s m).put.member rfl rfl rfl rfl rfl le_rfl)
      · exact .calm (Calm.refl s m').put
      · exact .calm (((Calm.refl s m).put.queueInLoop rfl).member rfl rfl rfl rfl rfl le_rfl)
      · exact .calm ((Calm.refl s m').put.queueInLoop rfl)
  | storesActive hm ht =>
    rcases put_cases rfl hm hj hj' with ⟨rfl, rfl, rfl⟩ | ⟨hne, rfl⟩
    · exact .stores (by rw [ht]; simp) rfl rfl rfl
    · exact .calm (Calm.refl s m').put
  | storesProbe hm ht =>
    rcases put_cases rfl hm hj hj' with ⟨rfl, rfl, rfl⟩ | ⟨hne, rfl⟩
    · exact .stores (by rw [ht]; simp) rfl rfl rfl
    · exact .calm (Calm.refl s m').put
  | @establishes loop i rest r m₀ sys hq hm =>
    rcases put_cases rfl hm hj hj' with ⟨rfl, rfl, rfl⟩ | ⟨hne, rfl⟩
    · refine .establishes hq ?_ rfl rfl rfl
      have honce : (s.queues m.ioLoop).count (.connectEstablished j) + m.establishes = 1 := hk.once
      have hhome : m.ioLoop = loop := (hs.head hq hm).1
      rw [hhome, hq, List.count_cons_self] at honce
      omega
    · exact .calm (Calm.pop hq m').put
  | destroys hq hm =>
    rcases put_cases rfl hm hj hj' with ⟨rfl, rfl, rfl⟩ | ⟨hne, rfl⟩
    · exact .calm ((Calm.pop hq m).put.member rfl rfl rfl rfl rfl le_rfl)
    · exact .calm (Calm.pop hq m').put
  | @removes loop i rest r m₀ hq hm hany =>
    have herase : ∀ x, Calm s { s.pop loop rest with connections := erase m₀.name s.connections } x x := fun x =>
      ⟨le_rfl, rfl, (Calm.pop hq x).queued, rfl, rfl, rfl, rfl, le_rfl⟩
    rcases put_cases (t := { s.pop loop rest with connections := erase m₀.name s.connections }) rfl hm hj hj' with
      ⟨rfl, rfl, rfl⟩ | ⟨hne, rfl⟩
    · exact .calm (((herase m).put.queueInLoop rfl).member rfl rfl rfl rfl rfl le_rfl)
    · exact .calm ((herase m').put.queueInLoop rfl)
  | findsNothing hq =>
    obtain rfl := hsame rfl
    exact .calm (Calm.pop hq m')
  | runs hq hm =>
    rcases put_cases rfl hm hj hj' with ⟨rfl, rfl, rfl⟩ | ⟨hne, rfl⟩
    · exact .calm ((Calm.pop hq m).put.member rfl rfl rfl rfl rfl le_rfl)
    · exact .calm (Calm.pop hq m').put
  | @beats loop i rest r m₀ hq hidle hm =>
    rcases put_cases rfl hm hj hj' with ⟨rfl, rfl, rfl⟩ | ⟨hne, rfl⟩
    · obtain ⟨hhome, hest⟩ := hs.head hq hm
      have hhome : m.ioLoop = loop := hhome
      subst hhome
      exact .beats hq (idle_touch hidle hm rfl) rfl rfl rfl rfl rfl rfl (hest.resolve_left (by simp))
    · exact .calm (Calm.pop hq m').put
  | forceCloses hq hm =>
    rcases put_cases rfl hm hj hj' with ⟨rfl, rfl, rfl⟩ | ⟨hne, rfl⟩
    · exact .calm ((Calm.pop hq m).put.member rfl rfl rfl rfl rfl le_rfl)
    · exact .calm (Calm.pop hq m').put
  | idles hq =>
    obtain rfl := hsame rfl
    exact .calm (Calm.pop hq m')
  | startsCheck hnone hperm =>
    obtain rfl := hsame rfl
    exact .startsCheck hnone hperm
  | looks hc hcur hm =>
    obtain rfl := hsame rfl
    exact .looks hc hcur hm
  | queuesOne hc hcur hpop hm =>
    obtain rfl := hsame rfl
    exact .queuesOne hc hcur hpop hm
  | endsCheck =>
    obtain rfl := hsame rfl
    exact .endsCheck
  | ticks hle =>
    obtain rfl := hsame rfl
    exact .calm ⟨hle, rfl, fun _ _ => le_rfl, rfl, rfl, rfl, rfl, le_rfl⟩

/-! ## Closing -/

/-- A connection that is about to be closed has received nothing for the timeout. -/
def Idle (cfg : Config) (s : Server) (i : Nat) (m : Member) : Prop :=
  evicting s i m → ∀ d, m.lastData = some d → d + cfg.idleTimeout * nsPerMs ≤ s.clock

/-- A step that does not concern the closing of a connection. -/
theorem Idle.frame {i : Nat} {m m' : Member} (h : Idle cfg s i m) (hclock : s.clock ≤ s'.clock)
    (hdata : m'.lastData = m.lastData) (hev : evicting s' i m' → evicting s i m) : Idle cfg s' i m' := by
  intro he d hd
  have := h (hev he) d (hdata ▸ hd)
  omega

/-- The connections to be closed are those it has found idle for the timeout. -/
theorem Look.idles {c d : Check} {i j now : Nat} {m : Member} (h : Look cfg i m now c d) (hj : j ∈ d.idleConnections) :
    j ∈ c.idleConnections ∨
      j = i ∧ ∃ tick, c.stage = .idleNow i tick ∧ 0 < cfg.idleTimeout ∧ sinceTick now tick ≥ cfg.idleTimeout := by
  cases h with
  | @evicts tick hst h0 hidle =>
    rcases List.mem_append.mp hj with hj | hj
    · exact Or.inl hj
    · exact Or.inr ⟨List.mem_singleton.mp hj, tick, hst, h0, hidle⟩
  | _ => exact Or.inl hj

/-- What the check queues next was on its lists. -/
theorem pop_cases {c c' : Check} {i : Nat} {f : Functor} (h : c.pop cfg = some (i, f, c')) :
    (f = .heartbeat i ∧ c.heartbeatConnections = i :: c'.heartbeatConnections ∧ c'.idleConnections = c.idleConnections) ∨
      ((f = .idle i ∨ f = .forceClose i) ∧ c.idleConnections = i :: c'.idleConnections ∧
        c.heartbeatConnections = [] ∧ c'.heartbeatConnections = []) := by
  unfold Check.pop at h
  split at h
  · rename_i hb
    cases h
    exact Or.inl ⟨rfl, hb, rfl⟩
  · rename_i hb hi
    cases h
    refine Or.inr ⟨?_, hi, hb, hb⟩
    split
    · exact Or.inl rfl
    · exact Or.inr rfl
  · cases h

theorem timely_elapsed {timeout tick now reading : Nat} {last : Option Nat} (h0 : 0 < timeout)
    (h : timely timeout tick now last = true) (he : sinceTick now tick ≥ timeout) (hl : last = some reading) :
    reading + timeout * nsPerMs ≤ now := by
  subst hl
  simp only [timely, Bool.and_eq_true, decide_eq_true_eq, Bool.not_eq_true'] at h
  obtain ⟨rfl, hcut⟩ := h
  exact elapsed_since h0 he hcut

theorem Calm.evicting {j : Nat} {m m' : Member} (h : Calm s s' m m') (hev : evicting s' j m') : TcpServer.evicting s j m := by
  rcases hev with hev | hev
  · have := h.queued (.forceClose j) rfl
    have hpos := List.count_pos_iff.mpr hev
    exact Or.inl (List.count_pos_iff.mp (by omega))
  · right
    simp only [Server.idles, h.check] at hev
    exact hev

theorem Turn.idle {j : Nat} {m m' : Member} (h : Turn cfg s j m a s' m') (hj : s.members[j]? = some m)
    (hok : evictsInTime cfg s a = true) (hi : Idle cfg s j m) : Idle cfg s' j m' := by
  cases h with
  | calm hc => exact hi.frame hc.clock hc.lastData hc.evicting
  | hears hrec hloop =>
    intro hev
    have hno : ¬ evicting s j m := by simpa [evictsInTime, hj, hrec] using hok
    rw [evicting, hloop] at hev
    exact absurd hev hno
  | stores _ hloop hdata => exact hi.frame le_rfl hdata fun hev => by rw [evicting, hloop] at hev; exact hev
  | establishes hq _ hloop hdata =>
    refine hi.frame le_rfl hdata fun hev => ?_
    rw [evicting, hloop] at hev
    exact (Calm.pop hq m).evicting hev
  | beats hq _ hloop hdata =>
    refine hi.frame le_rfl hdata fun hev => ?_
    rw [evicting, hloop] at hev
    exact (Calm.pop hq m).evicting hev
  | startsCheck =>
    refine hi.frame le_rfl rfl fun hev => Or.inl (hev.resolve_right ?_)
    simp [Server.idles]
  | @looks c c' i m₀ hc hcur hm =>
    intro hev d hd
    rcases hev with hev | hev
    · exact hi (Or.inl hev) d hd
    · rcases (look_checkStage hcur).idles hev with hev | ⟨rfl, tick, hst, h0, hidle⟩
      · exact hi (Or.inr (by simpa [Server.idles, hc] using hev)) d hd
      · have htimely : timely cfg.idleTimeout tick s.clock m.lastData = true := by
          simpa [evictsInTime, hc, hst, h0, hidle, hj] using hok
        exact timely_elapsed h0 htimely hidle hd
  | @queuesOne c c' i f m₀ hc hcur hpop hm =>
    refine hi.frame le_rfl rfl fun hev => ?_
    have hidles : s.idles = c.idleConnections := by simp [Server.idles, hc]
    rcases hev with hev | hev
    · rw [queueInLoop_queues] at hev
      have hev : .forceClose j ∈ s.queues m.ioLoop ∨ f = .forceClose j := by
        split at hev
        · rename_i hk
          rw [List.mem_append, List.mem_singleton] at hev
          rw [hk]
          exact hev.imp_right Eq.symm
        · exact Or.inl hev
      refine hev.imp_right fun hf => ?_
      rcases pop_cases hpop with ⟨rfl, -⟩ | ⟨rfl | rfl, heq, -⟩
      · cases hf
      · cases hf
      · cases hf
        rw [hidles, heq]
        exact List.mem_cons_self
    · right
      have hev : j ∈ c'.idleConnections := hev
      rw [hidles]
      rcases pop_cases hpop with ⟨-, -, heq⟩ | ⟨-, heq, -⟩
      · rw [← heq]
        exact hev
      · rw [heq]
        exact List.mem_cons_of_mem _ hev
  | endsCheck =>
    refine hi.frame le_rfl rfl fun hev => Or.inl (hev.resolve_right ?_)
    simp [Server.idles]

/-! ## Heartbeats -/

/-- How long the connection has been idle, as far as the check has found out. -/
def Stage.idle : Stage → Nat
  | .lastProbeAt _ idle => idle
  | .probeIdleFor _ idle => idle
  | .probeNow _ idle _ => idle
  | _ => 0

/-- The check is at the probe of a connection. -/
def Stage.probes : Stage → Bool
  | .lastProbeAt _ _ => true
  | .probeIdleFor _ _ => true
  | .probeNow _ _ _ => true
  | _ => false

/-- The connections that a check is still to look at, or has found to be due for a heartbeat. -/
def Check.ahead (c : Check) : List Nat := c.stage.conn.toList ++ (c.todo ++ c.heartbeatConnections)

/-- A check looks at no connection twice. -/
structure Checked (cfg : Config) (s : Server) : Prop where
  once : ∀ c, s.check = some c → c.ahead.Nodup
  idle : ∀ c, s.check = some c → c.stage.idle ≤ s.clock / nsPerMs
  enabled : ∀ c, s.check = some c → c.stage.probes = true → 0 < cfg.heartbeatInterval

/-- The heartbeats of a connection that are to come. -/
def coming (s : Server) (i : Nat) (m : Member) : Nat := (s.queues m.ioLoop).count (.heartbeat i) + s.beats.count i

/-- At most one heartbeat is to come, and not too early; the probe's tick is that of the last one. -/
structure Spaced (cfg : Config) (s : Server) (i : Nat) (m : Member) : Prop where
  one : coming s i m ≤ 1
  late : 0 < coming s i m → nsPerTick ≤ s.clock
  spaced : 0 < coming s i m → ∀ b, m.lastBeat = some b → b + cfg.heartbeatInterval * nsPerMs ≤ s.clock
  probed : ∀ b, m.lastBeat = some b → m.lastProbeAtTick = toTick b ∧ nsPerTick ≤ b ∧ m.touch = .done ∧ m.establishes ≠ 0

/-- A step after which no more heartbeats are to come than before. -/
theorem Spaced.frame {i : Nat} {m m' : Member} (h : Spaced cfg s i m) (hclock : s.clock ≤ s'.clock)
    (hcoming : coming s' i m' ≤ coming s i m) (hbeat : m'.lastBeat = m.lastBeat)
    (hprobed : ∀ b, m.lastBeat = some b → m'.lastProbeAtTick = m.lastProbeAtTick ∧ m'.touch = m.touch ∧
      m.establishes ≤ m'.establishes) : Spaced cfg s' i m' where
  one := hcoming.trans h.one
  late hc := (h.late (by omega)).trans hclock
  spaced hc b hb := (h.spaced (by omega) b (hbeat ▸ hb)).trans hclock
  probed b hb := by
    have hb : m.lastBeat = some b := hbeat ▸ hb
    obtain ⟨h1, h2, h3, h4⟩ := h.probed b hb
    obtain ⟨hp, ht, he⟩ := hprobed b hb
    exact ⟨hp.trans h1, h2, ht.trans h3, by omega⟩

theorem Calm.coming {j : Nat} {m m' : Member} (h : Calm s s' m m') : coming s' j m' ≤ coming s j m := by
  unfold TcpServer.coming Server.beats
  rw [h.check]
  exact Nat.add_le_add_right (h.queued _ rfl) _

/-- The check puts a connection on its list. -/
theorem Spaced.select {c : Check} {j : Nat} {m : Member} (h : Spaced cfg s j m) {d : Check} (hd : d.heartbeatConnections = c.heartbeatConnections ++ [j])
    (hnot : j ∉ c.heartbeatConnections) (hqueue : .heartbeat j ∉ s.queues m.ioLoop) (hclock : nsPerTick ≤ s.clock)
    (hlast : ∀ b, m.lastBeat = some b → b + cfg.heartbeatInterval * nsPerMs ≤ s.clock) :
    Spaced cfg { s with check := some d } j m where
  one := by
    simp only [coming, Server.beats, hd, List.count_append, List.count_eq_zero.mpr hnot, List.count_eq_zero.mpr hqueue]
    simp
  late _ := hclock
  spaced _ := hlast
  probed := h.probed

theorem Look.heartbeats {c d : Check} {i now : Nat} {m : Member} (h : Look cfg i m now c d) :
    d.heartbeatConnections = c.heartbeatConnections ∨
      d.heartbeatConnections = c.heartbeatConnections ++ [i] ∧ Due cfg c i m now := by
  cases h with
  | beats hdue => exact Or.inr ⟨rfl, hdue⟩
  | _ => exact Or.inl rfl

/-- A connection goes from the list of those to be looked at to the one looked at, and from there to the
    heartbeats or off the lists. -/
theorem Look.ahead {c d : Check} {i now : Nat} {m : Member} (h : Look cfg i m now c d) (hn : c.ahead.Nodup) :
    d.ahead.Nodup := by
  unfold Check.ahead at hn ⊢
  cases h with
  | skips hst htodo =>
    rw [hst, htodo] at hn
    rw [hst]
    exact (List.nodup_cons.mp hn).2
  | finds hst htodo =>
    rw [hst, htodo] at hn
    exact hn
  | loads hst =>
    rw [hst] at hn
    exact hn
  | asks hst =>
    rw [hst] at hn
    exact hn
  | probed hst =>
    rw [hst] at hn
    exact hn
  | loadsProbe hst =>
    rw [hst] at hn
    exact hn
  | evicts hst =>
    rw [hst] at hn
    exact (List.nodup_cons.mp hn).2
  | beats hdue =>
    rw [hdue.conn] at hn
    change (c.todo ++ (c.heartbeatConnections ++ [i])).Nodup
    rw [← List.append_assoc]
    exact (List.perm_append_singleton i _).nodup_iff.mpr hn
  | leaves hconn =>
    rw [hconn] at hn
    exact (List.nodup_cons.mp hn).2

theorem sinceTick_le (now tick : Nat) : sinceTick now tick ≤ now / nsPerMs := by
  unfold sinceTick
  split
  · exact Nat.zero_le _
  · exact Nat.div_le_div_right (Nat.sub_le _ _)

theorem Look.idle {c d : Check} {i now : Nat} {m : Member} (h : Look cfg i m now c d)
    (hle : c.stage.idle ≤ now / nsPerMs) : d.stage.idle ≤ now / nsPerMs := by
  cases h with
  | skips => exact hle
  | asks => exact sinceTick_le _ _
  | probed hst =>
    rw [hst] at hle
    exact hle
  | loadsProbe hst =>
    rw [hst] at hle
    exact hle
  | _ => exact Nat.zero_le _

theorem Look.probes {c d : Check} {i now : Nat} {m : Member} (h : Look cfg i m now c d)
    (hen : c.stage.probes = true → 0 < cfg.heartbeatInterval) : d.stage.probes = true → 0 < cfg.heartbeatInterval := by
  cases h with
  | skips => exact hen
  | asks _ h0 => exact fun _ => h0
  | probed hst =>
    rw [hst] at hen
    exact hen
  | loadsProbe hst =>
    rw [hst] at hen
    exact hen
  | _ => exact fun h => by cases h

/-- What a step does to the check. -/
theorem Move.check (h : Move cfg s a s') :
    (s'.check = s.check ∧ s.clock ≤ s'.clock) ∨
      (∃ order, order.Perm (s.connections.map (·.2)) ∧ s'.check = some ⟨.visit, order, [], []⟩ ∧ s'.clock = s.clock) ∨
      (∃ c d i m, s.check = some c ∧ Look cfg i m s.clock c d ∧ s'.check = some d ∧ s'.clock = s.clock) ∨
      (∃ c c' i f, s.check = some c ∧ c.current = none ∧ c.pop cfg = some (i, f, c') ∧ s'.check = some c' ∧
        s'.clock = s.clock) ∨
      (s'.check = none ∧ s'.clock = s.clock) := by
  cases h with
  | startsCheck _ hperm => exact Or.inr (Or.inl ⟨_, hperm, rfl, rfl⟩)
  | looks hc hcur => exact Or.inr (Or.inr (Or.inl ⟨_, _, _, _, hc, look_checkStage hcur, rfl, rfl⟩))
  | queuesOne hc hcur hpop => exact Or.inr (Or.inr (Or.inr (Or.inl ⟨_, _, _, _, hc, hcur, hpop, rfl, rfl⟩)))
  | endsCheck => exact Or.inr (Or.inr (Or.inr (Or.inr ⟨rfl, rfl⟩)))
  | @lives i m a sys =>
    left
    rcases stepped_eq cfg i m a sys s with h | h
    · rw [h]
      exact ⟨rfl, le_rfl⟩
    · rw [h]
      exact ⟨rfl, le_rfl⟩
  | ticks hle => exact Or.inl ⟨rfl, hle⟩
  | _ => exact Or.inl ⟨rfl, le_rfl⟩

theorem current_none {c : Check} (h : c.current = none) : c.stage = .visit ∧ c.todo = [] := by
  unfold Check.current at h
  split at h
  · rename_i hst
    split at h
    · cases h
    · rename_i htodo
      exact ⟨hst, htodo⟩
  all_goals cases h

theorem pop_stage {c c' : Check} {i : Nat} {f : Functor} (h : c.pop cfg = some (i, f, c')) :
    c'.stage = c.stage ∧ c'.todo = c.todo := by
  unfold Check.pop at h
  split at h
  · cases h
    exact ⟨rfl, rfl⟩
  · cases h
    exact ⟨rfl, rfl⟩
  · cases h

theorem Move.checked (h : Move cfg s a s') (hs : Sound cfg s) (hc : Checked cfg s) : Checked cfg s' := by
  rcases h.check with ⟨heq, hle⟩ | ⟨order, hperm, heq, hclock⟩ | ⟨c, d, i, m, hcheck, hlook, heq, hclock⟩ |
    ⟨c, c', i, f, hcheck, hcur, hpop, heq, hclock⟩ | ⟨heq, hclock⟩
  · refine ⟨?_, ?_, ?_⟩ <;> rw [heq]
    · exact hc.once
    · exact fun c h => (hc.idle c h).trans (Nat.div_le_div_right hle)
    · exact hc.enabled
  · refine ⟨?_, ?_, ?_⟩ <;> rw [heq] <;> rintro d ⟨⟩
    · have hnodup : order.Nodup := hperm.nodup_iff.mpr hs.nodup
      simpa [Check.ahead, Stage.conn] using hnodup
    · exact Nat.zero_le _
    · exact fun h => by cases h
  · refine ⟨?_, ?_, ?_⟩ <;> rw [heq] <;> rintro d ⟨⟩
    · exact hlook.ahead (hc.once c hcheck)
    · rw [hclock]
      exact hlook.idle (hc.idle c hcheck)
    · exact hlook.probes (hc.enabled c hcheck)
  · obtain ⟨hst, htodo⟩ := current_none hcur
    obtain ⟨hst', htodo'⟩ := pop_stage hpop
    have honce := hc.once c hcheck
    refine ⟨?_, ?_, ?_⟩ <;> rw [heq] <;> rintro d ⟨⟩
    · simp only [Check.ahead, hst, hst', htodo, htodo'] at honce ⊢
      rcases pop_cases hpop with ⟨-, heq, -⟩ | ⟨-, -, -, heq⟩
      · rw [heq] at honce
        simpa [Stage.conn] using (List.nodup_cons.mp honce).2
      · simp [heq, Stage.conn]
    · rw [hst', hst]
      exact Nat.zero_le _
    · rw [hst', hst]
      exact fun h => by cases h
  · refine ⟨?_, ?_, ?_⟩ <;> rw [heq] <;> rintro d ⟨⟩

/-! ### Every step -/

/-- Without a heartbeat since the last data, there is nothing to be far enough from. -/
theorem Spaced.unbeaten {i : Nat} {m m' : Member} (h : Spaced cfg s i m) (hclock : s.clock ≤ s'.clock)
    (hcoming : coming s' i m' ≤ coming s i m) (hbeat : m'.lastBeat = none) : Spaced cfg s' i m' where
  one := hcoming.trans h.one
  late hc := (h.late (by omega)).trans hclock
  spaced _ b hb := by
    rw [hbeat] at hb
    cases hb
  probed b hb := by
    rw [hbeat] at hb
    cases hb

/-- A connection in the middle of its stores, or not established yet, had no heartbeat since the last data. -/
theorem Spaced.unbeaten_of {i : Nat} {m : Member} (h : Spaced cfg s i m) (hm : m.touch ≠ .done ∨ m.establishes = 0) :
    m.lastBeat = none := by
  cases hb : m.lastBeat with
  | none => rfl
  | some b =>
    obtain ⟨-, -, ht, he⟩ := h.probed b hb
    rcases hm with hm | hm
    · exact absurd ht hm
    · exact absurd hm he

theorem coming_put {t : Server} {i j : Nat} {m m' x : Member} (hloop : m'.ioLoop = m.ioLoop) :
    coming (t.put i x) j m' = coming t j m := by
  rw [coming, hloop]
  rfl

/-- The check puts the connection it looks at on the list of heartbeats. -/
theorem Spaced.looks {c c' : Check} {j : Nat} {m : Member} (h : Spaced cfg s j m) (hck : Checked cfg s)
    (hj : s.members[j]? = some m) (hok : beatsInTime cfg s .check = true) (hc : s.check = some c)
    (hbeats : (checkStage cfg c' j m s.clock).heartbeatConnections = c.heartbeatConnections ++ [j])
    (hdue : Due cfg c j m s.clock) : Spaced cfg { s with check := some (checkStage cfg c' j m s.clock) } j m := by
  have hprobes : c.stage.probes = true ∧ cfg.heartbeatInterval ≤ c.stage.idle := by
    rcases hdue with ⟨idle, hst, -, hidle⟩ | ⟨idle, tick, hst, hidle, -⟩
    · rw [hst]
      exact ⟨rfl, hidle⟩
    · rw [hst]
      exact ⟨rfl, hidle⟩
  obtain ⟨hpr, hge⟩ := hprobes
  have hH := hck.enabled c hc hpr
  have hnot : j ∉ c.heartbeatConnections := by
    have honce := hck.once c hc
    simp only [Check.ahead, hdue.conn, Option.toList_some, List.singleton_append] at honce
    exact fun hin => (List.nodup_cons.mp honce).1 (List.mem_append_right _ hin)
  have hclock : nsPerTick ≤ s.clock := by
    have hdiv : 1 ≤ s.clock / nsPerMs := (Nat.succ_le_of_lt hH).trans (hge.trans (hck.idle c hc))
    have hms : nsPerMs ≤ s.clock := by simpa using (Nat.le_div_iff_mul_le (by decide)).mp hdiv
    exact le_trans (by decide) hms
  rcases hdue with ⟨idle, hst, h0, hidle⟩ | ⟨idle, tick, hst, hidle, hprobe⟩
  · have hqueue : .heartbeat j ∉ s.queues m.ioLoop := by
      simpa [beatsInTime, hc, hst, hj, h0, hidle] using hok
    refine h.select hbeats hnot hqueue hclock fun b hb => ?_
    -- one that has had a heartbeat since has been probed
    obtain ⟨htick, hb1, -, -⟩ := h.probed b hb
    have : 1 ≤ toTick b := (Nat.le_div_iff_mul_le (by decide)).mpr (by simpa using hb1)
    omega
  · have hboth : .heartbeat j ∉ s.queues m.ioLoop ∧ timely cfg.heartbeatInterval tick s.clock m.lastBeat = true := by
      simpa [beatsInTime, hc, hst, hj, hidle, hprobe] using hok
    exact h.select hbeats hnot hboth.1 hclock fun b hb => timely_elapsed hH hboth.2 hprobe hb

theorem beats_of_check {c : Check} (hc : s.check = some c) : s.beats = c.heartbeatConnections := by
  simp [Server.beats, hc]

theorem Turn.spaced {j : Nat} {m m' : Member} (h : Turn cfg s j m a s' m') (hj : s.members[j]? = some m)
    (hck : Checked cfg s) (hok : beatsInTime cfg s a = true) (hsp : Spaced cfg s j m) : Spaced cfg s' j m' := by
  cases h with
  | calm hc => exact hsp.frame hc.clock hc.coming hc.lastBeat fun b _ => ⟨hc.lastProbe, hc.touch, hc.establishes⟩
  | hears _ hloop _ hbeat => exact hsp.unbeaten le_rfl (coming_put hloop).le hbeat
  | stores ht hloop _ hbeat =>
    exact hsp.unbeaten le_rfl (coming_put hloop).le (hbeat.trans (hsp.unbeaten_of (Or.inl ht)))
  | establishes hq h0 hloop _ hbeat =>
    refine hsp.unbeaten le_rfl ?_ (hbeat.trans (hsp.unbeaten_of (Or.inr h0)))
    rw [coming_put hloop]
    exact (Calm.pop hq m).coming
  | @beats rest r m' hq ht hloop _ hbeat hprobe htouch hest h0 =>
    have hcount := count_pop hq (.heartbeat j) m.ioLoop
    rw [if_pos ⟨rfl, rfl⟩] at hcount
    have hone : coming s j m = coming (s.pop m.ioLoop rest) j m + 1 := by
      simp only [coming, hcount]
      change _ = _ + s.beats.count j + 1
      omega
    have hle := hsp.one
    have hnone : coming ((s.pop m.ioLoop rest).put j m') j m' = 0 := by
      rw [coming_put hloop]
      omega
    refine ⟨by omega, fun h => by omega, fun h => by omega, fun b hb => ?_⟩
    rw [hbeat] at hb
    cases hb
    exact ⟨hprobe, hsp.late (by omega), htouch.trans ht, by omega⟩
  | startsCheck =>
    refine hsp.frame le_rfl ?_ rfl fun _ _ => ⟨rfl, rfl, le_rfl⟩
    simp [coming, Server.beats]
  | @looks c c' i m₀ hc hcur hm =>
    have hlook : Look cfg i m₀ s.clock c (checkStage cfg c' i m₀ s.clock) := look_checkStage hcur
    rcases hlook.heartbeats with hsame | ⟨hbeats, hdue⟩
    · refine hsp.frame le_rfl ?_ rfl fun _ _ => ⟨rfl, rfl, le_rfl⟩
      simp only [coming, beats_of_check hc]
      exact (congrArg (fun l => _ + List.count j l) hsame).le
    · by_cases hij : i = j
      · subst hij
        rw [hj] at hm
        cases hm
        exact hsp.looks hck hj hok hc hbeats hdue
      · refine hsp.frame le_rfl ?_ rfl fun _ _ => ⟨rfl, rfl, le_rfl⟩
        have hcount : (checkStage cfg c' i m₀ s.clock).heartbeatConnections.count j = c.heartbeatConnections.count j := by
          rw [hbeats, List.count_append, List.count_singleton, if_neg (by simpa using hij), Nat.add_zero]
        simp only [coming, beats_of_check hc]
        exact (congrArg (_ + ·) hcount).le
  | @queuesOne c c' i f m₀ hc hcur hpop hm =>
    refine hsp.frame le_rfl ?_ rfl fun _ _ => ⟨rfl, rfl, le_rfl⟩
    have hbeats : ({ s with check := some c' }.queueInLoop m₀.ioLoop f).beats = c'.heartbeatConnections := rfl
    have hqueues := count_queueInLoop (s := { s with check := some c' }) m₀.ioLoop f (.heartbeat j) m.ioLoop
    rw [coming, hbeats, hqueues, coming, beats_of_check hc]
    rcases pop_cases hpop with ⟨rfl, heq, -⟩ | ⟨hf, -, heq, heq'⟩
    · rw [heq]
      by_cases hij : i = j
      · subst hij
        simp only [and_true, List.count_cons_self]
        split <;> omega
      · rw [if_neg fun h => hij (by simpa using h.2), List.count_cons_of_ne (by simpa using hij)]
        exact le_rfl
    · rw [heq, heq', if_neg]
      · exact le_rfl
      · rintro ⟨-, rfl⟩
        rcases hf with hf | hf <;> cases hf
  | endsCheck =>
    refine hsp.frame le_rfl ?_ rfl fun _ _ => ⟨rfl, rfl, le_rfl⟩
    simp [coming, Server.beats]

/-! ## Over whole runs -/

theorem New.unheard {m : Member} (h : New cfg s m s') : m.lastData = none ∧ m.lastBeat = none := by
  cases h <;> exact ⟨rfl, rfl⟩

/-- The check knows nothing of a connection that has just been made. -/
theorem New.coming {m : Member} (h : New cfg s m s') (hs : Sound cfg s) : coming s' s.members.length m = 0 := by
  have hnone : s.members[s.members.length]? = none := List.getElem?_eq_none le_rfl
  have hbeats : s.beats.count s.members.length = 0 := by
    refine List.count_eq_zero.mpr fun hin => ?_
    unfold Server.beats at hin
    split at hin
    · rename_i c hc
      obtain ⟨m', hm', -⟩ := hs.found c hc s.members.length (by simp [Check.found, hin])
      rw [hnone] at hm'
      cases hm'
    · cases hin
  have hqueue : ∀ k, (s.queues k).count (.heartbeat s.members.length) = 0 := fun k =>
    hs.unqueued (f := .heartbeat s.members.length) hnone k
  cases h with
  | established =>
    change (s.queues _).count _ + s.beats.count _ = 0
    rw [hqueue, hbeats]
  | queued =>
    rw [TcpServer.coming, count_queueInLoop, if_neg (by simp)]
    change (s.queues _).count _ + 0 + s.beats.count _ = 0
    rw [hqueue, hbeats]

theorem Idle.of_reach (hr : (server cfg).Reach (fun s a => evictsInTime cfg s a = true) s) :
    ∀ i m, s.members[i]? = some m → Idle cfg s i m := by
  refine hr.inv_of_reach (I := fun s => ∀ i m, s.members[i]? = some m → Idle cfg s i m)
    (fun i m h => (by simp [server, make] at h)) ?_
  intro s a s' hr ih hok hstep j m' hj'
  obtain ⟨hs, hk⟩ := Sound.of_reach hr
  have hm := step_move hstep
  cases hj : s.members[j]? with
  | none =>
    intro _ d hd
    rw [(hm.new hj hj').2.unheard.1] at hd
    cases hd
  | some m => exact (hm.turn hs hj (hk j m hj) hj').idle hj hok (ih j m hj)

theorem Spaced.of_reach (hr : (server cfg).Reach (fun s a => beatsInTime cfg s a = true) s) :
    Checked cfg s ∧ ∀ i m, s.members[i]? = some m → Spaced cfg s i m := by
  refine hr.inv_of_reach (I := fun s => Checked cfg s ∧ ∀ i m, s.members[i]? = some m → Spaced cfg s i m)
    ⟨⟨fun c h => (by cases h), fun c h => (by cases h), fun c h => (by cases h)⟩, fun i m h => (by simp [server, make] at h)⟩ ?_
  rintro s a s' hr ⟨hck, ih⟩ hok hstep
  obtain ⟨hs, hk⟩ := Sound.of_reach hr
  have hm := step_move hstep
  refine ⟨hm.checked hs hck, fun j m' hj' => ?_⟩
  cases hj : s.members[j]? with
  | none =>
    obtain ⟨rfl, hnew⟩ := hm.new hj hj'
    have hzero := hnew.coming hs
    have hbeat := hnew.unheard.2
    refine ⟨by omega, fun h => by omega, fun h => by omega, fun b hb => ?_⟩
    rw [hbeat] at hb
    cases hb
  | some m => exact (hm.turn hs hj (hk j m hj) hj').spaced hj hck hok (ih j m hj)

/-- If the check decides on current ticks and no data comes in before the connection is closed, the functor of
    the check that closes it runs at least the idle timeout after the last data. If the check has no heartbeat
    queued while one is, and decides on current ticks, a heartbeat callback starts at least the interval after
    the one before it, unless data has come in between. -/
theorem idle_check_in_time {loop i : Nat} {rest : List Functor} {m : Member} (hm : s.members[i]? = some m) :
    ((server cfg).Reach (fun s a => evictsInTime cfg s a = true) s → s.queues loop = .forceClose i :: rest →
        ∀ d, m.lastData = some d → d + cfg.idleTimeout * nsPerMs ≤ s.clock) ∧
      ((server cfg).Reach (fun s a => beatsInTime cfg s a = true) s → s.queues loop = .heartbeat i :: rest →
        ∀ b, m.lastBeat = some b → b + cfg.heartbeatInterval * nsPerMs ≤ s.clock) := by
  constructor
  · intro hr hq
    have hhome : m.ioLoop = loop := ((Sound.of_reach hr).1.head hq hm).1
    refine Idle.of_reach hr i m hm (Or.inl ?_)
    rw [hhome, hq]
    exact List.mem_cons_self
  · intro hr hq
    have hhome : m.ioLoop = loop := ((Sound.of_reach hr).1.head hq hm).1
    refine ((Spaced.of_reach hr).2 i m hm).spaced ?_
    rw [coming, hhome, hq, List.count_cons_self]
    omega

/-- A connection is established at 1 ms, and its callback returns. -/
def opened : List Act :=
  [.tick 1000000, .accept, .functor 1 (.take 0), .touch 0, .touch 0, .connection 0 .next, .connection 0 .returns]

/-- A byte comes in, and the message callback returns. -/
def oneByte : List Act :=
  [.connection 0 (.event ⟨false, true, false, false⟩), .connection 0 (.read (.data [1])), .touch 0, .touch 0,
    .connection 0 .next, .connection 0 .returns, .connection 0 (.read (.fail 11))]

/-- A check that finds the connection idle for the timeout. -/
def evictingCheck : List Act := [.startCheck [0], .check, .check, .check, .check, .check]

/-- A check that finds it due for its first heartbeat, and for another. -/
def firstBeat : List Act := [.startCheck [0], .check, .check, .check, .check, .check, .check]

def nextBeat : List Act := [.startCheck [0], .check, .check, .check, .check, .check, .check, .check, .check]

/-- No idle timeout, and a heartbeat every 5 ms. -/
def beating : Config := { echo with idleTimeout := 0 }

/-- What is next in the queue of the io loop, the last data and the last heartbeat of the connection. -/
def ahead (s : Server) : Option Functor × Option (Option Nat × Option Nat) :=
  ((s.queues 1).head?, (s.members[0]?).map fun m => (m.lastData, m.lastBeat))

/-- The last byte comes in at 2 ms, the check runs at 12 ms; heartbeats are due at 7 ms and at 13 ms. -/
theorem idle_check_in_time_both :
    (∃ s, (server echo).Reach (fun s a => evictsInTime echo s a = true) s ∧
        ahead s = (some (.forceClose 0), some (some 2000000, none)) ∧ 2000000 + 10 * nsPerMs ≤ s.clock) ∧
      ∃ s, (server beating).Reach (fun s a => beatsInTime beating s a = true) s ∧
        ahead s = (some (.heartbeat 0), some (none, some 7000000)) ∧ 7000000 + 5 * nsPerMs ≤ s.clock := by
  have hsplit : ∀ {s : Server} {f : Functor} {d b : Option Nat}, ahead s = (some f, some (d, b)) →
      ∃ rest m, s.queues 1 = f :: rest ∧ s.members[0]? = some m ∧ m.lastData = d ∧ m.lastBeat = b := by
    intro s f d b h
    obtain ⟨hf, hlast⟩ := Prod.mk.inj h
    obtain ⟨rest, hq⟩ := List.head?_eq_some_iff.mp hf
    obtain ⟨m, hm, hmd⟩ := Option.map_eq_some_iff.mp hlast
    obtain ⟨hd, hb⟩ := Prod.mk.inj hmd
    exact ⟨rest, m, hq, hm, hd, hb⟩
  obtain ⟨s, hr, hp⟩ := Lib.Machine.Reach.of_run (server echo) (fun s a => evictsInTime echo s a = true)
    (fun s => decide (ahead s = (some (.forceClose 0), some (some 2000000, none))))
    (opened ++ .tick 2000000 :: oneByte ++ .tick 12000000 :: evictingCheck) (by decide +kernel)
  obtain ⟨t, hr', hp'⟩ := Lib.Machine.Reach.of_run (server beating) (fun s a => beatsInTime beating s a = true)
    (fun s => decide (ahead s = (some (.heartbeat 0), some (none, some 7000000))))
    (opened ++ .tick 7000000 :: firstBeat ++ .functor 1 (.take 0) :: .tick 13000000 :: nextBeat) (by decide +kernel)
  have hs := of_decide_eq_true hp
  have ht := of_decide_eq_true hp'
  obtain ⟨rest, m, hq, hm, hd, -⟩ := hsplit hs
  obtain ⟨rest', m', hq', hm', -, hb⟩ := hsplit ht
  exact ⟨⟨s, hr, hs, (idle_check_in_time hm).1 hr hq _ hd⟩, t, hr', ht, (idle_check_in_time hm').2 hr' hq' _ hb⟩

def connState (s : Server) : Option TcpConnection.State := (s.members[0]?).map fun m => m.sys.conn.state

/-- A byte comes in at 12 ms between the check and the functor it has queued, which closes the connection; and
    two checks have queued a heartbeat each before the first of them starts. -/
theorem a_connection_is_closed_with_data_just_in :
    (∃ s, (server echo).Reach (fun _ _ => True) s ∧ ahead s = (some (.forceClose 0), some (some 12000000, none)) ∧
        s.clock = 12000000 ∧
        (step echo s (.functor 1 (.take 0))).bind connState = some .disconnected) ∧
      ∃ s, (server beating).Reach (fun _ _ => True) s ∧ ahead s = (some (.heartbeat 0), some (none, some 13000000)) ∧
        s.clock = 13000000 := by
  obtain ⟨s, hr, hp⟩ := Lib.Machine.Reach.of_run (server echo) (fun _ _ => True)
    (fun s => decide (ahead s = (some (.forceClose 0), some (some 12000000, none)) ∧ s.clock = 12000000 ∧
      (step echo s (.functor 1 (.take 0))).bind connState = some .disconnected))
    (opened ++ .tick 12000000 :: evictingCheck ++ oneByte) (by decide +kernel)
  obtain ⟨t, hr', hp'⟩ := Lib.Machine.Reach.of_run (server beating) (fun _ _ => True)
    (fun s => decide (ahead s = (some (.heartbeat 0), some (none, some 13000000)) ∧ s.clock = 13000000))
    (opened ++ .tick 7000000 :: firstBeat ++ .tick 13000000 :: firstBeat ++ [.functor 1 (.take 0)]) (by decide +kernel)
  exact ⟨⟨s, hr, of_decide_eq_true hp⟩, t, hr', of_decide_eq_true hp'⟩

end Dbase.Net.TcpServer
