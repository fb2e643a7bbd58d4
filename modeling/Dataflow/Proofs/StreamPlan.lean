import Dataflow.Network.Component
import Dataflow.Proofs.ConnectionTransfer

/-!
Networks of stock actors, told by their streams.

Numbers of firings that hold each other back (`Plan.Bounded`) never overtake numbers at which everybody is held
(`Plan.Bounded.le_of_held`). Without limited sinks, that is when all streams have been delivered
(`Plan.Bounded.delivered`).
-/

namespace Dataflow

/-- all numbers of a sequence -/
def Feed.numbers : Feed → List Int32
  | .range start count => (List.range count).map fun k => start + wordOfNat k
  | .values xs => xs.toList

theorem Source.next?_eq (s : Source) : s.next? = s.feed.numbers[s.emitted]? := by
  unfold Source.next?
  cases s.feed with
  | range start count =>
    by_cases h : s.emitted < count
    · simp [Feed.numbers, h]
    · simp [Feed.numbers, h]
  | values xs => simp [Feed.numbers]

/-- what a stock actor does -/
inductive Role where
  | source (numbers : List Int32)
  | scale (factor : Int32)
  | sink (limit : Option Nat)
deriving DecidableEq, Repr

namespace Role

def reads : Role → Bool
  | source _ => false
  | scale _ | sink _ => true

def writes : Role → Bool
  | source _ | scale _ => true
  | sink _ => false

/-- what comes of the tokens that it reads -/
def through : Role → List Int32 → List Int32
  | source numbers, _ => numbers
  | scale factor, stream => stream.map (· * factor)
  | sink _, stream => stream

theorem length_through {role : Role} {stream : List Int32} (h : role.reads = true) :
    (role.through stream).length = stream.length := by
  cases role with
  | source numbers => cases h
  | scale factor => simp [through]
  | sink limit => rfl

end Role

/-- a connection: who writes it, and who reads it -/
structure Lane where
  writer : Nat
  /-- by reader's number -/
  readers : List Nat
  capacity : Nat
deriving DecidableEq, Repr

/-- following the connections back from an instance leads to a source -/
inductive FedBy (roles : List Role) (lanes : List Lane) : Nat → Prop where
  | source {i : Nat} {numbers : List Int32} (h : roles[i]? = some (.source numbers)) : FedBy roles lanes i
  | reader {j : Nat} {L : Lane} (hL : L ∈ lanes) (hj : j ∈ L.readers)
      (h : FedBy roles lanes L.writer) : FedBy roles lanes j

structure Plan where
  /-- by instance -/
  roles : List Role
  /-- by connection -/
  lanes : List Lane
  /-- by instance: all tokens that can ever pass through it -/
  stream : Nat → List Int32
  capacity_pos : ∀ L ∈ lanes, 0 < L.capacity
  writer_role : ∀ L ∈ lanes, ∃ role, roles[L.writer]? = some role ∧ role.writes = true
  reader_role : ∀ L ∈ lanes, ∀ j ∈ L.readers, ∃ role, roles[j]? = some role ∧ role.reads = true
  /-- nobody writes two connections -/
  writer_unique : ∀ {w w' : Nat} {L L'}, lanes[w]? = some L → lanes[w']? = some L' → L.writer = L'.writer → w = w'
  /-- nobody reads two connections, or one twice -/
  reader_unique : ∀ {w w' r r' j : Nat} {L L'}, lanes[w]? = some L → lanes[w']? = some L' →
    L.readers[r]? = some j → L'.readers[r']? = some j → w = w' ∧ r = r'
  stream_source : ∀ {i numbers}, roles[i]? = some (.source numbers) →
    stream i = numbers ∧ numbers.length < Word.size32
  stream_reader : ∀ {j role L}, roles[j]? = some role → L ∈ lanes → j ∈ L.readers →
    stream j = role.through (stream L.writer)
  stream_unfed : ∀ {i}, ¬ FedBy roles lanes i → stream i = []

namespace Plan

variable {P : Plan} {i j : Nat} {L L' : Lane} {f F : Nat → Nat} {numbers : List Int32}

theorem lane_unique (hL : L ∈ P.lanes) (hL' : L' ∈ P.lanes) (hj : j ∈ L.readers) (hj' : j ∈ L'.readers) : L = L' := by
  obtain ⟨w, hw⟩ := List.getElem?_of_mem hL
  obtain ⟨w', hw'⟩ := List.getElem?_of_mem hL'
  obtain ⟨r, hr⟩ := List.getElem?_of_mem hj
  obtain ⟨r', hr'⟩ := List.getElem?_of_mem hj'
  obtain ⟨rfl, -⟩ := P.reader_unique hw hw' hr hr'
  rw [hw] at hw'
  exact Option.some.inj hw'

/-- no source reads -/
theorem not_source_of_reader (hL : L ∈ P.lanes) (hj : j ∈ L.readers) :
    P.roles[j]? ≠ some (.source numbers) := by
  intro h
  obtain ⟨role, hrole, hreads⟩ := P.reader_role L hL j hj
  rw [h] at hrole
  cases hrole
  cases hreads

/-- whoever reads its own output is fed by nobody -/
theorem not_fed_of_loop (h : FedBy P.roles P.lanes i) (hL : L ∈ P.lanes) (hi : L.writer = i) : i ∉ L.readers := by
  induction h generalizing L with
  | source hsource => exact fun hmem => not_source_of_reader hL hmem hsource
  | reader hL' hj _ ih =>
    intro hmem
    obtain rfl := lane_unique hL hL' hmem hj
    rw [hi] at ih
    exact ih hL hi hmem

theorem stream_loop (hL : L ∈ P.lanes) (hmem : L.writer ∈ L.readers) : P.stream L.writer = [] :=
  P.stream_unfed fun h => not_fed_of_loop h hL rfl hmem

/-- no stream has as many tokens as there are words -/
theorem stream_short (P : Plan) (i : Nat) : (P.stream i).length < Word.size32 := by
  by_cases hfed : FedBy P.roles P.lanes i
  · induction hfed with
    | source h =>
      obtain ⟨hstream, hshort⟩ := P.stream_source h
      rwa [hstream]
    | reader hL hj _ ih =>
      obtain ⟨role, hrole, hreads⟩ := P.reader_role _ hL _ hj
      rwa [P.stream_reader hrole hL hj, Role.length_through hreads]
  · rw [P.stream_unfed hfed]
    decide

/-! ## How instances hold each other back -/

/-- an instance with so many firings is done for good -/
def Finished (P : Plan) (i fired : Nat) : Prop :=
  match P.roles[i]? with
  | some (.source numbers) => numbers.length ≤ fired
  | some (.sink (some limit)) => limit ≤ fired
  | _ => False

/-- numbers of firings that the connections allow -/
structure Bounded (P : Plan) (f : Nat → Nat) : Prop where
  within : ∀ i, f i ≤ (P.stream i).length
  fed : ∀ L ∈ P.lanes, ∀ j ∈ L.readers, f j ≤ f L.writer
  room : ∀ L ∈ P.lanes, ∀ j ∈ L.readers, f L.writer ≤ f j + L.capacity
  limit : ∀ {i limit}, P.roles[i]? = some (.sink (some limit)) → f i ≤ limit

/-- an instance that cannot fire: it is done, has nothing to read, or no room to write -/
def Held (P : Plan) (f : Nat → Nat) (i : Nat) : Prop :=
  P.Finished i (f i) ∨ (∃ L ∈ P.lanes, i ∈ L.readers ∧ f L.writer ≤ f i) ∨
    ∃ L ∈ P.lanes, L.writer = i ∧ ∃ j ∈ L.readers, f j + L.capacity ≤ f i

/-- where an instance is held, it is not overtaken while nobody else has gone further -/
theorem Bounded.le_of_held (hf : P.Bounded f) (hheld : P.Held F i) (hle : ∀ j ≠ i, f j ≤ F j) : f i ≤ F i := by
  rcases hheld with hfin | ⟨L, hL, hmem, hdry⟩ | ⟨L, hL, rfl, j, hj, hfull⟩
  · unfold Finished at hfin
    split at hfin
    · next numbers hrole =>
      have hwithin := hf.within i
      rw [(P.stream_source hrole).1] at hwithin
      omega
    · next limit hrole => exact le_trans (hf.limit hrole) hfin
    · exact hfin.elim
  · by_cases hloop : L.writer = i
    · have hwithin := hf.within i
      rw [← hloop, stream_loop hL (hloop ▸ hmem), hloop] at hwithin
      exact le_trans hwithin (Nat.zero_le _)
    · exact le_trans (hf.fed L hL i hmem) (le_trans (hle _ hloop) hdry)
  · by_cases hloop : j = L.writer
    · have hwithin := hf.within L.writer
      rw [stream_loop hL (hloop ▸ hj)] at hwithin
      exact le_trans hwithin (Nat.zero_le _)
    · have h1 := hf.room L hL j hj
      have h2 := hle j hloop
      omega

/-! ## Delivery -/

def Unlimited (P : Plan) : Prop := ∀ {i limit : Nat}, P.roles[i]? ≠ some (.sink (some limit))

/-- where everybody is held, all readers have caught up -/
theorem caughtUp_of_held (hunlimited : P.Unlimited) (hheld : ∀ i < P.roles.length, P.Held F i) (hL : L ∈ P.lanes)
    (hj : j ∈ L.readers) : F L.writer ≤ F j := by
  -- a reader that lags is held by a reader of its own that lags more
  induction hn : F j using Nat.strong_induction_on generalizing j L with
  | _ n ih =>
    subst hn
    obtain ⟨role, hrole, hreads⟩ := P.reader_role L hL j hj
    rcases hheld j (lt_of_getElem? hrole) with hfin | ⟨L', hL', hmem, hdry⟩ | ⟨L', hL', rfl, k, hk, hfull⟩
    · unfold Finished at hfin
      split at hfin
      · next numbers hsource => exact absurd hsource (not_source_of_reader hL hj)
      · next limit hsink => exact absurd hsink hunlimited
      · exact hfin.elim
    · rwa [lane_unique hL hL' hj hmem]
    · have hcap := P.capacity_pos L' hL'
      have := ih (F k) (by omega) hL' hk rfl
      omega

/-- where everybody is held, every source has emitted everything -/
theorem source_done_of_held (hunlimited : P.Unlimited) (hheld : ∀ i < P.roles.length, P.Held F i)
    (hi : P.roles[i]? = some (.source numbers)) : numbers.length ≤ F i := by
  rcases hheld i (lt_of_getElem? hi) with hfin | ⟨L, hL, hmem, -⟩ | ⟨L, hL, rfl, j, hj, hfull⟩
  · rwa [Finished, hi] at hfin
  · exact absurd hi (not_source_of_reader hL hmem)
  · have hcap := P.capacity_pos L hL
    have := caughtUp_of_held hunlimited hheld hL hj
    omega

/-- where everybody is held, everything has been delivered -/
theorem Bounded.delivered (hF : P.Bounded F) (hunlimited : P.Unlimited) (hheld : ∀ i < P.roles.length, P.Held F i)
    (i : Nat) : F i = (P.stream i).length := by
  refine le_antisymm (hF.within i) ?_
  by_cases hfed : FedBy P.roles P.lanes i
  · induction hfed with
    | source hsource =>
      rw [(P.stream_source hsource).1]
      exact source_done_of_held hunlimited hheld hsource
    | reader hL hj _ ih =>
      obtain ⟨role, hrole, hreads⟩ := P.reader_role _ hL _ hj
      rw [P.stream_reader hrole hL hj, Role.length_through hreads]
      exact le_trans ih (caughtUp_of_held hunlimited hheld hL hj)
  · rw [P.stream_unfed hfed]
    exact Nat.zero_le _

end Plan

end Dataflow
