import Dataflow.Proofs.StationPorts
import Dataflow.Proofs.StockCalls

/-!
Stations, which take the numbers of one stream in order and give on those of another.

After a call there is less left to do (`Goes`), or the station is held (`Held`): if there is room after it, nothing is
left before it, and all that was taken has been given on.
-/

namespace Dataflow

variable {S : StationPorts} {ports ports' : Ports} {a a' : Count} {exit : Exit} {n most : Nat}

/-! ## The law -/

/-- how far a station is -/
structure Count where
  taken : Nat
  given : Nat
  /-- bound on the calls that are left with something to do -/
  left : Nat

/-- if there is room, nothing is left to take and all that was taken has been given on -/
def Held (S : StationPorts) (ports : Ports) (a : Count) : Prop :=
  (S.outflow.isSome = true → ∀ room, ports.availableOut 0 = .ok room → 0 < room) →
    (S.inflow.isSome = true → ports.availableIn 0 = .ok 0) ∧ a.given = a.taken

/-- what a call comes to that fires at most `most` times. Only a station without input terminates, and that when it has
given on everything -/
inductive Goes (most : Nat) (S : StationPorts) (ports ports' : Ports) (a a' : Count) (exit : Exit) : Prop where
  | on (less : a'.left < a.left)
      (shown : exit = .yield ∨ ports.actions.size < ports'.actions.size ∧
        ports'.actions.size ≤ ports.actions.size + most)
      (done : exit = .terminate → S.inflow = none ∧ a'.given = a'.taken)
  | stays (same : a' = a) (still : ports' = ports) (rests : exit ≠ .yield) (held : Held S ports a)
      (done : exit = .terminate → S.inflow = none ∧ a'.given = a'.taken)
      (undone : S.inflow = none → exit ≠ .terminate → a.given < a.taken)

theorem Goes.done (h : Goes most S ports ports' a a' exit) (hexit : exit = .terminate) :
    S.inflow = none ∧ a'.given = a'.taken := by
  cases h with
  | on _ _ hdone | stays _ _ _ _ hdone => exact hdone hexit

/-- actors of which one is, at any time, a station that makes the stream `t` of the stream `s` -/
structure Station (σ : Type) [Behaviour σ] (s t : List Int32) where
  reads : Bool
  writes : Bool
  plays : Count → σ → Prop
  /-- a station without input has everything from the beginning -/
  begins : ∀ {a x}, reads = false → plays a x → a.taken = s.length
  call : ∀ {S ports a x maxLoops}, S.inflow.isSome = reads → S.outflow.isSome = writes →
    S.Open s t ports a.taken a.given → plays a x → 1 ≤ maxLoops →
    ∃ x' ports' exit a', Behaviour.act maxLoops x ports = ⟨x', ports', .ok exit⟩ ∧ S.Open s t ports' a'.taken a'.given ∧
      plays a' x' ∧ Goes s.length S ports ports' a a' exit

/-- a station at which nobody is -/
instance {σ : Type} [Behaviour σ] {s t : List Int32} : Inhabited (Station σ s t) :=
  ⟨false, false, fun _ _ => False, fun _ h => h.elim, fun _ _ _ h => h.elim⟩

/-- the station among other actors -/
def Station.among {σ τ : Type} [Behaviour σ] [Behaviour τ] {s t : List Int32} (P : Station τ s t) (f : τ → σ)
    (hf : ∀ n x ports, Behaviour.act n (f x) ports = (Behaviour.act n x ports).map f) : Station σ s t where
  reads := P.reads
  writes := P.writes
  plays a y := ∃ x, y = f x ∧ P.plays a x
  begins := by
    rintro a y hreads ⟨x, -, hx⟩
    exact P.begins hreads hx
  call := by
    rintro S ports a y maxLoops hin hout hopen ⟨x, rfl, hx⟩ hloops
    obtain ⟨x', ports', exit, a', hact, hopen', hx', hgoes⟩ := P.call hin hout hopen hx hloops
    exact ⟨f x', ports', exit, a', by rw [hf, hact]; rfl, hopen', ⟨x', rfl, hx'⟩, hgoes⟩

/-! ## Stock actors -/

/-- `n` firings come to something, unless there are none to make -/
def Fires (n : Nat) (S : StationPorts) (ports ports' : Ports) (a a' : Count) (exit : Exit) : Prop :=
  n = 0 ∧ a' = a ∧ ports' = ports ∧ exit = .yield ∨ Goes a.left S ports ports' a a' exit

/-- a firing, and whatever comes after it -/
theorem Fires.after {ports1 : Ports} {a1 : Count} {action : Nat} (h : Fires n S (ports1.fire action) ports' a1 a' exit)
    (hless : a1.left < a.left) (hactions : ports1.actions = ports.actions) : Goes a.left S ports ports' a a' exit := by
  have hports : (ports1.fire action).actions.size = ports.actions.size + 1 := by rw [Ports.size_actions_fire, hactions]
  rcases h with ⟨-, rfl, rfl, rfl⟩ | ⟨hless', hshown, hdone⟩ | ⟨rfl, rfl, -, -, hdone, -⟩
  · exact .on hless (.inl rfl) fun hexit => by cases hexit
  · exact .on (hless'.trans hless) (hshown.imp_right fun ⟨_, _⟩ => by omega) hdone
  · exact .on hless (.inr (by omega)) hdone

theorem Fires.block {blocked : List Blocked} (held : Held S ports a) (undone : S.inflow = none → a.given < a.taken) :
    Fires n S ports ports a a (.block blocked) :=
  .inr (.stays rfl rfl (fun hexit => by cases hexit) held (fun hexit => by cases hexit) fun hnone _ => undone hnone)

theorem Fires.goes (h : Fires n S ports ports' a a' exit) (hn : 1 ≤ n) (hmost : a.left ≤ most) :
    Goes most S ports ports' a a' exit := by
  rcases h with ⟨hzero, -⟩ | ⟨hless, hshown, hdone⟩ | ⟨hsame, hstill, hrests, hheld, hdone, hundone⟩
  · omega
  · exact .on hless (hshown.imp_right fun ⟨hgrown, hall⟩ => ⟨hgrown, by omega⟩) hdone
  · exact .stays hsame hstill hrests hheld hdone hundone

section Stock

variable {s : List Int32} {k : Nat} {x : Source}

/-- how far a source is; it has its numbers from the beginning -/
def Source.count (x : Source) : Count := ⟨x.feed.numbers.length, x.emitted, x.feed.numbers.length - x.emitted⟩

/-- a source that has given on all its numbers terminates -/
theorem Source.goes_terminate (hin : S.inflow = none) (hle : x.emitted ≤ x.feed.numbers.length)
    (hnext : x.next? = none) : Goes most S ports ports x.count x.count .terminate := by
  rw [Source.next?_eq, List.getElem?_eq_none_iff] at hnext
  have hdone : x.count.given = x.count.taken := le_antisymm hle hnext
  refine .stays rfl rfl (fun hexit => by cases hexit) (fun _ => ⟨fun hsome => ?_, hdone⟩) (fun _ => ⟨hin, hdone⟩)
    fun _ hne => absurd rfl hne
  rw [hin] at hsome
  cases hsome

theorem Source.act_fires (n : Nat) (hin : S.inflow = none) (hout : S.outflow.isSome = true)
    (hlength : x.feed.numbers.length < Word.size32) (hle : x.emitted ≤ x.feed.numbers.length)
    (hopen : S.Open s x.feed.numbers ports x.count.taken x.emitted) :
    ∃ x' ports' exit, x.act n ports = ⟨x', ports', .ok exit⟩ ∧ x'.feed = x.feed ∧ x'.emitted ≤ x.feed.numbers.length ∧
      S.Open s x.feed.numbers ports' x.count.taken x'.emitted ∧ Fires n S ports ports' x.count x'.count exit := by
  induction n generalizing x ports with
  | zero =>
    cases hnext : x.next? with
    | none =>
      exact ⟨x, ports, .terminate, by simp [Source.act, hnext], rfl, hle, hopen, .inr (goes_terminate hin hle hnext)⟩
    | some value => exact ⟨x, ports, .yield, by simp [Source.act, hnext], rfl, hle, hopen, .inl ⟨rfl, rfl, rfl, rfl⟩⟩
  | succ n ih =>
    cases hnext : x.next? with
    | none =>
      exact ⟨x, ports, .terminate, by simp [Source.act, hnext], rfl, hle, hopen, .inr (goes_terminate hin hle hnext)⟩
    | some value =>
      have hvalue : x.feed.numbers[x.emitted]? = some value := (Source.next?_eq x).symm.trans hnext
      have hlt := lt_of_getElem? hvalue
      obtain ⟨room, hroom⟩ := hopen.room hout
      by_cases hpos : 0 < room
      · obtain ⟨ports1, hwrite, hopen1⟩ := hopen.write hout hroom hpos hvalue
        have hadd : Word.add32 x.emitted 1 = .ok (x.emitted + 1) := if_pos (by omega)
        obtain ⟨x', ports', exit, hact, hfeed, hle', hopen', hfires⟩ :=
          ih (x := { x with emitted := x.emitted + 1 }) hlength hlt (hopen1.fire 0)
        refine ⟨x', ports', exit, ?_, hfeed, hle', hopen', .inr (hfires.after ?_ (Ports.onOutput_actions hwrite))⟩
        · simp [Source.act, hnext, Ports.hasRoom_of_room hroom, hpos, hwrite, hadd, hact]
        · simp only [Source.count]
          omega
      · refine ⟨x, ports, .blockOutput 0 1, ?_, rfl, hle, hopen,
          .block (fun hfree => absurd (hfree hout room hroom) hpos) fun _ => hlt⟩
        simp [Source.act, hnext, Ports.hasRoom_of_room hroom, hpos]

/-- a source gives on its numbers -/
def Source.station (feed : Feed) (hlength : feed.numbers.length < Word.size32) :
    Station Source feed.numbers feed.numbers where
  reads := false
  writes := true
  plays a x := x.feed = feed ∧ x.emitted ≤ feed.numbers.length ∧ a = x.count
  begins := by
    rintro _ x - ⟨rfl, -, rfl⟩
    rfl
  call := by
    rintro S ports _ x maxLoops hin hout hopen ⟨rfl, hle, rfl⟩ hloops
    obtain ⟨x', ports', exit, hact, hfeed, hle', hopen', hfires⟩ :=
      x.act_fires maxLoops (Option.isSome_eq_false_iff.1 hin |> Option.isNone_iff_eq_none.1) hout hlength hle hopen
    refine ⟨x', ports', exit, x'.count, hact, ?_, ⟨hfeed, hle', rfl⟩, hfires.goes hloops (Nat.sub_le ..)⟩
    rw [Source.count, hfeed]
    exact hopen'

/-- how far a station is that gives on each number before it takes the next one -/
def Count.even (total k : Nat) : Count := ⟨k, k, total - k⟩

theorem Scale.act_fires (n : Nat) {x : Scale} (hin : S.inflow.isSome = true) (hout : S.outflow.isSome = true)
    (hopen : S.Open s (s.map (· * x.factor)) ports k k) :
    ∃ ports' exit k', x.act n ports = ⟨x, ports', .ok exit⟩ ∧ S.Open s (s.map (· * x.factor)) ports' k' k' ∧
      Fires n S ports ports' (.even s.length k) (.even s.length k') exit := by
  induction n generalizing ports k with
  | zero => exact ⟨ports, .yield, k, rfl, hopen, .inl ⟨rfl, rfl, rfl, rfl⟩⟩
  | succ n ih =>
    have hnone : S.inflow ≠ none := fun hnone => by rw [hnone] at hin; cases hin
    obtain ⟨level, hlevel⟩ := hopen.level hin
    obtain ⟨room, hroom⟩ := hopen.room hout
    by_cases hsome : 0 < level
    · by_cases hpos : 0 < room
      · obtain ⟨value, ports1, hvalue, hread, hopen1, hroom1⟩ := hopen.read hin hlevel hsome
        have hproduct : (s.map (· * x.factor))[k]? = some (value * x.factor) := by rw [List.getElem?_map, hvalue]; rfl
        obtain ⟨ports2, hwrite, hopen2⟩ := hopen1.write hout (hroom1.trans hroom) hpos hproduct
        obtain ⟨ports', exit, k', hact, hopen', hfires⟩ := ih (hopen2.fire 0)
        have hlt := lt_of_getElem? hvalue
        refine ⟨ports', exit, k', ?_, hopen', .inr (hfires.after ?_ ((Ports.onOutput_actions hwrite).trans
          (Ports.onInput_actions hread)))⟩
        · simp [Scale.act, Ports.hasInput_of_level hlevel, Ports.hasRoom_of_room hroom, hsome,
            hpos, hread, hwrite, hact]
        · simp only [Count.even]
          omega
      · refine ⟨ports, .blockOutput 0 1, k, ?_, hopen, .block (fun hfree => absurd (hfree hout room hroom) hpos)
          fun h => absurd h hnone⟩
        simp [Scale.act, Ports.hasInput_of_level hlevel, Ports.hasRoom_of_room hroom, hsome, hpos]
    · obtain rfl : level = 0 := by omega
      refine ⟨ports, .blockInput 0 1, k, ?_, hopen, .block (fun _ => ⟨fun _ => hlevel, rfl⟩) fun h => absurd h hnone⟩
      simp only [Scale.act, Ports.hasInput_of_level hlevel, hsome, decide_false]

/-- a scaler gives on every number times its factor -/
def Scale.station (x : Scale) (s : List Int32) : Station Scale s (s.map (· * x.factor)) where
  reads := true
  writes := true
  plays a y := y = x ∧ ∃ k, a = .even s.length k
  begins := fun h => by cases h
  call := by
    rintro S ports _ _ maxLoops hin hout hopen ⟨rfl, k, rfl⟩ hloops
    obtain ⟨ports', exit, k', hact, hopen', hfires⟩ := Scale.act_fires maxLoops hin hout hopen
    exact ⟨_, ports', exit, .even s.length k', hact, hopen', ⟨rfl, k', rfl⟩, hfires.goes hloops (Nat.sub_le ..)⟩

theorem Sink.act_fires (n : Nat) {x : Sink} (hin : S.inflow.isSome = true) (hlimit : x.limit = none)
    (htokens : x.tokens.toList = s.take k) (hopen : S.Open s s ports k k) (hout : S.outflow = none) :
    ∃ x' ports' exit k', x.act n ports = ⟨x', ports', .ok exit⟩ ∧ x'.limit = none ∧ x'.tokens.toList = s.take k' ∧
      S.Open s s ports' k' k' ∧ Fires n S ports ports' (.even s.length k) (.even s.length k') exit := by
  induction n generalizing x ports k with
  | zero => exact ⟨x, ports, .yield, k, rfl, hlimit, htokens, hopen, .inl ⟨rfl, rfl, rfl, rfl⟩⟩
  | succ n ih =>
    have hnone : S.inflow ≠ none := fun hnone => by rw [hnone] at hin; cases hin
    have hfull : x.full = false := by rw [Sink.full, hlimit]; rfl
    obtain ⟨level, hlevel⟩ := hopen.level hin
    by_cases hsome : 0 < level
    · obtain ⟨value, ports1, hvalue, hread, hopen1, -⟩ := hopen.read hin hlevel hsome
      have htokens1 : (x.tokens.push value).toList = s.take (k + 1) := by
        rw [Array.toList_push, htokens, List.take_add_one, hvalue]
        rfl
      obtain ⟨x', ports', exit, k', hact, hlimit', htokens', hopen', hfires⟩ :=
        ih (x := { x with tokens := x.tokens.push value }) hlimit htokens1 ((hopen1.giveNothing hout (k + 1)).fire 0)
      have hlt := lt_of_getElem? hvalue
      refine ⟨x', ports', exit, k', ?_, hlimit', htokens', hopen', .inr (hfires.after ?_ (Ports.onInput_actions hread))⟩
      · simp [Sink.act, hfull, Ports.hasInput_of_level hlevel, hsome, hread, hact]
      · simp only [Count.even]
        omega
    · obtain rfl : level = 0 := by omega
      refine ⟨{ x with blocks := x.blocks + 1 }, ports, .blockInput 0 1, k, ?_, hlimit, htokens, hopen,
        .block (fun _ => ⟨fun _ => hlevel, rfl⟩) fun h => absurd h hnone⟩
      simp only [Sink.act, hfull, Ports.hasInput_of_level hlevel, hsome, decide_false, Bool.false_eq_true, if_false]

/-- a sink without a limit collects all numbers -/
def Sink.station (s : List Int32) : Station Sink s s where
  reads := true
  writes := false
  plays a x := x.limit = none ∧ ∃ k, x.tokens.toList = s.take k ∧ a = .even s.length k
  begins := fun h => by cases h
  call := by
    rintro S ports _ x maxLoops hin hout hopen ⟨hlimit, k, htokens, rfl⟩ hloops
    obtain ⟨x', ports', exit, k', hact, hlimit', htokens', hopen', hfires⟩ :=
      x.act_fires maxLoops hin hlimit htokens hopen (Option.isSome_eq_false_iff.1 hout |> Option.isNone_iff_eq_none.1)
    exact ⟨x', ports', exit, .even s.length k', hact, hopen', ⟨hlimit', k', htokens', rfl⟩,
      hfires.goes hloops (Nat.sub_le ..)⟩

end Stock

end Dataflow
