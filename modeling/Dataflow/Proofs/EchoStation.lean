import Dataflow.Proofs.EchoBench
import Dataflow.Proofs.Station

/-!
An echo bridge is a station.

On a device that carries out commands at once, it gives on the numbers that it takes (`Bridge.echoStation`).
-/

namespace Dataflow

open List

open Plan (bytesOf)

namespace Bridge

/-- the tokens taken, passed on and handed on, in the order of their numbers -/
theorem Echoing.counts {δ : Type} {core : δ → Accelerator StockKernel} {perCall tokenSize : Nat} {b : Bridge δ}
    {X : Bytes} {T H D : Nat} (h : Echoing perCall tokenSize core b X T H D) : X.length = H * tokenSize ∧ D ≤ H := by
  obtain ⟨-, p, q, m, P, -, -, -, hstage⟩ := h
  cases hstage with
  | init _ _ _ hr =>
    exact ⟨by rw [hr.input.length, hr.paired.size], hr.output.order.1.trans hr.input.order.1⟩
  | pollKernel _ _ hl =>
    exact ⟨by rw [hl.input.length, hl.paired.size], hl.output.order.1.trans hl.input.order.1⟩
  | pollRead _ _ _ hf =>
    obtain ⟨n, rfl, hfetch⟩ := hf.fetching
    exact ⟨by rw [hf.input.length, hf.paired.size],
      (hfetch.order.1.trans (Nat.le_add_right _ n)).trans hf.input.order.1⟩

end Bridge

/-! ## The connections of a bridge -/

section Cabling

variable {S : StationPorts} {g : Inflow} {g' : Outflow} {s : List Int32} {ports : Ports} {X : Bytes} {H D : Nat}

/-- what a bridge at these ports can rely on while its ports are open -/
def StationPorts.cabling (S : StationPorts) (hin : S.inflow = some g) (hout : S.outflow = some g')
    (s : List Int32) : Bridge.Cabling where
  source _ e r c l := e = g.port ∧ r = g.released ∧ c = g.connection ∧ l = .cable s g.sent g.sent g.released
  sink _ e c l := e = g'.port ∧ (∃ storage, c = { g'.connection with storage }) ∧ l.published = g'.published ∧
    l.released = [g'.read]
  sink_write := by
    rintro o e c l storage n bytes - ⟨rfl, ⟨_, rfl⟩, hpublished, hreleased⟩
    exact ⟨rfl, ⟨storage, rfl⟩, hpublished, hreleased⟩
  inWire := g.wire
  outWire := g'.wire
  apart := S.apart g hin g' hout
  wires := S.wires

variable (hin : S.inflow = some g) (hout : S.outflow = some g')

theorem StationPorts.Open.cabling (h : S.Open s s ports H D) (hD : D ≤ H) :
    (S.cabling hin hout s).Taken 4 ports (bytesOf (s.take H)) ∧
      (S.cabling hin hout s).Handed 4 ports ((bytesOf (s.take H)).take (D * 4)) := by
  obtain ⟨v, hdraws, rfl⟩ := h.drawn g hin
  obtain ⟨storage, v', hfills⟩ := h.filled g' hout
  have hreadable : g.released + v.moved + v.available ≤ g.sent := (hdraws.tracks.readable hdraws.reads).1
  refine ⟨⟨g.port, g.released, g.connection, v, _, hdraws, g.size, ?_, rfl, rfl, rfl, rfl⟩,
    ⟨g'.port, _, v', _, hfills, g'.size, ?_, rfl, ⟨storage, rfl⟩, rfl, rfl⟩, fun w hw => h.others w fun x hx => ?_⟩
  · rw [Ledger.cable, Plan.bytesOf_take, take_take, min_eq_left (by omega)]
  · rw [Plan.bytesOf_take, take_take, min_eq_left hD]
    rfl
  · cases hout.symm.trans hx
    exact hw.symm

theorem StationPorts.open_of_cabling (ht : (S.cabling hin hout s).Taken 4 ports X) (hX : X.length = H * 4) (hD : D ≤ H)
    (hh : (S.cabling hin hout s).Handed 4 ports (X.take (D * 4))) :
    X = bytesOf (s.take H) ∧ S.Open s s ports H D ∧ H ≤ s.length := by
  obtain ⟨_, _, _, v, _, hdraws, -, hXeq, rfl, rfl, rfl, rfl⟩ := ht
  obtain ⟨⟨_, _, v', l, hfills, hsize, hY, rfl, ⟨storage, rfl⟩, hpublished, hreleased⟩, hothers⟩ := hh
  have hreadable : g.released + v.moved + v.available ≤ g.sent := (hdraws.tracks.readable hdraws.reads).1
  have hsent := hdraws.tracks.cable_le g.size
  rw [Ledger.cable, Plan.bytesOf_take, take_take, min_eq_left (by omega)] at hXeq
  have hH : g.released + v.moved = H := by
    rw [hXeq, Plan.length_bytesOf, length_take] at hX
    omega
  subst hH hXeq
  rw [Plan.bytesOf_take, take_take, min_eq_left hD] at hY
  -- the number of tokens written is that of their bytes
  have hwritten : l.written = D := by
    have hlength := hfills.tracks.length
    rw [hY, Plan.length_bytesOf, length_take, hsize] at hlength
    omega
  have hledger : l = .cable s D g'.published g'.read := by
    rw [Ledger.cable, ← hY, ← hwritten, ← hpublished, ← hreleased]
  rw [hledger] at hfills
  refine ⟨rfl, ⟨fun x hx => ?_, fun x hx => ?_, fun w hw => hothers w (hw g' hout).symm⟩, by omega⟩
  · cases hin.symm.trans hx
    exact ⟨v, hdraws, rfl⟩
  · cases hout.symm.trans hx
    exact ⟨storage, v', hfills⟩

end Cabling

/-! ## The station -/

namespace Bridge

/-- an echo bridge on a device that carries out commands at once gives on the numbers that it takes -/
def echoStation {perCall : Nat} (hk : 1 ≤ perCall) (s : List Int32) : Station StockBridge s s where
  reads := true
  writes := true
  plays a b := b.device.mode = .immediate ∧ ∃ T, Echoing perCall 4 (fun d => d) b
    (bytesOf (s.take a.taken)) T a.taken a.given ∧
    a.left = b.stepsLeft s.length T a.taken a.given
  begins := fun h => by cases h
  call := by
    rintro S ports a b maxLoops hreads hwrites hopen ⟨hmode, T, hecho, hleft⟩ hloops
    obtain ⟨g, hin⟩ := Option.isSome_iff_exists.1 hreads
    obtain ⟨g', hout⟩ := Option.isSome_iff_exists.1 hwrites
    obtain ⟨ht, hh⟩ := hopen.cabling hin hout hecho.counts.2
    obtain ⟨b', ports', exit, X', T', H', D', hact, hrun, hlater, hhalts⟩ :=
      act_running Accelerator.paces hk maxLoops ⟨hecho, ht, hh⟩
    obtain ⟨rfl, hopen', htotal⟩ :=
      StationPorts.open_of_cabling hin hout hrun.taken hrun.echoing.counts.1 hrun.echoing.counts.2 hrun.handed
    refine ⟨b', ports', exit, ⟨H', D', b'.stepsLeft s.length T' H' D'⟩, hact, hopen',
      ⟨hlater.mode.trans hmode, T', hrun.echoing, rfl⟩, ?_⟩
    cases hhalts with
    | went hnearer =>
      exact .on (by rw [hleft]; exact hnearer.left s.length htotal) (Or.inl rfl) fun hexit => by cases hexit
    | waits _ hbusy => exact absurd hmode (hbusy rfl hloops)
    | blocks blocked hunmoved _ _ hexhausted =>
      refine .stays ?_ hunmoved.ports (fun hexit => by cases hexit) (fun hfree => ?_) (fun hexit => by cases hexit)
        fun hnone => ?_
      · rw [hunmoved.left, ← hleft, hunmoved.taken, hunmoved.handed]
      · obtain ⟨room, hroom⟩ := hopen.room hwrites
        have hheld := hexhausted rfl hloops
        rw [hunmoved.ports, hunmoved.taken, hunmoved.handed] at hheld
        obtain ⟨hempty, hDH⟩ := hheld room hroom (hfree hwrites room hroom)
        exact ⟨fun _ => hempty, hDH⟩
      · rw [hnone] at hin
        cases hin

/-- a new echo bridge has taken nothing -/
theorem echoStation_plays_new {perCall : Nat} (hk : 1 ≤ perCall) (s : List Int32) {name : String}
    {inPort outPort : LinkPort} {b : StockBridge}
    (hb : create name (Accelerator.create (.echo perCall) .immediate) [inPort] [outPort] = .ok b)
    (hinSize : inPort.tokenSize = 4) (houtSize : outPort.tokenSize = 4) (hin : inPort.capacity < Word.size32)
    (hout : outPort.capacity < Word.size32) : (echoStation hk s).plays ⟨0, 0, b.stepsLeft s.length 0 0 0⟩ b := by
  obtain ⟨hecho, hmode⟩ := Echoing.of_create Accelerator.paces (.inl rfl) rfl (houtSize.trans hinSize.symm) hin hout hb
  rw [hinSize] at hecho
  exact ⟨hmode, 0, hecho, rfl⟩

end Bridge

end Dataflow
