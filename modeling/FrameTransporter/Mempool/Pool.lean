import Mathlib.Data.Rat.Defs
import Mathlib.Algebra.Order.Ring.Unbundled.Rat
import FrameTransporter.Hoare.Wp
import FrameTransporter.Intrusive.Chain
import FrameTransporter.Mempool.Frame

/-! # The frame pool

A pool is a list of zones. A zone owns the frames named after it and keeps those
that are not in use on a list through their `next` field. Borrowing takes a frame
from the first zone that has one, and asks the allocator for a zone at the end of
the list. A heartbeat removes zones that have been idle for long enough.
-/

namespace FrameTransporter

open Hoare

/-- `FT_POOL_LOWMEM_LIMIT`. -/
def FT_POOL_LOWMEM_LIMIT : ℤ := 100

structure Zone where
  id : ℕ
  freeable : Bool
  eraseOnReturn : Bool
  freeOnHb : Bool
  framesTotal : ℕ
  framesUsed : ℤ
  freeAt : ℚ
  availableFrames : Option FrameId

/-- What an allocator function asks for: the arguments of `ft_poolzone_new_mmap`, and whether
it declares the zone the last one. -/
structure NewZone where
  frameCount : ℕ
  frameCount_pos : 0 < frameCount
  freeable : Bool
  lastZone : Bool

/-- A published `FT_PUBSUB_TOPIC_POOL_LOWMEM` message. -/
structure Lowmem where
  framesAvailable : ℤ
  inc : Bool
  deriving DecidableEq, Repr

/-- The pool and its frames. The last three fields do not exist in memory: where the next zone
is mapped, the frames handed out and not yet returned, and the messages published so far. -/
structure Pool where
  zones : List Zone
  lastZone : Bool
  framesTotal : ℤ
  framesUsed : ℤ
  heap : FrameId → Frame
  freshZone : ℕ
  outstanding : List FrameId
  published : List Lowmem

namespace Pool

abbrev PoolM := Prog Pool Fault

/-- The link stored in a frame. -/
def next (p : Pool) (f : FrameId) : Option FrameId := (p.heap f).next

def setFrame (p : Pool) (f : FrameId) (x : Frame) : Pool :=
  { p with heap := Function.update p.heap f x }

/-- `_ft_frame_init`, with the link that `ft_poolzone_init` stores afterwards. -/
def frameInit (next : Option FrameId) : Frame where
  next := next
  type := .free
  vecPosition := 0
  vecs := []
  msgControl := false
  addrlen := 0
  lastSeenByFile := none
  lastSeenByLine := 0
  data := fun _ => 0
  capacity := FRAME_SIZE

/-- The link of the frame at an index of a zone of `n` frames: each frame to the one after it. -/
def initNext (id n i : ℕ) : Option FrameId := if i + 1 < n then some ⟨id, i + 1⟩ else none

/-- `ft_poolzone_init` on memory that was mapped at a fresh address. -/
def poolzoneInit (n : NewZone) : PoolM Zone := do
  let p ← get
  let id := p.freshZone
  set { p with
    heap := fun f =>
      if f.zone = id ∧ f.index < n.frameCount then frameInit (initNext id n.frameCount f.index)
      else p.heap f
    framesTotal := p.framesTotal + n.frameCount
    freshZone := id + 1 }
  return {
    id, freeable := n.freeable, eraseOnReturn := false, freeOnHb := false
    framesTotal := n.frameCount, framesUsed := 0, freeAt := 0, availableFrames := some ⟨id, 0⟩ }

/-- The fields that `_ft_poolzone_borrow` resets in the frame it takes. -/
def resetFrame (x : Frame) (type : FrameType) (file : String) (line : ℕ) : Frame :=
  { x with
    next := none, type := type, lastSeenByFile := some file, lastSeenByLine := line
    addrlen := 0, vecPosition := 0, vecs := [], msgControl := false }

/-- `_ft_poolzone_borrow`. The zone pointer of a frame on the list is the zone itself. -/
def poolzoneBorrow (z : Zone) (type : FrameType) (file : String) (line : ℕ) :
    PoolM (Option FrameId × Zone) := do
  if line = 0 then throw (.abort .linePositive)
  else
    match z.availableFrames with
    | none => return (none, z)
    | some f =>
      let p ← get
      set (p.setFrame f (resetFrame (p.heap f) type file line))
      return (some f, { z with availableFrames := p.next f, framesUsed := z.framesUsed + 1 })

/-- The loop of `ft_pool_borrow_real_` over the zones. -/
def borrowZones (type : FrameType) (file : String) (line : ℕ) :
    List Zone → PoolM (Option FrameId × List Zone)
  | [] => return (none, [])
  | z :: zs => do
    let (f, z') ← poolzoneBorrow z type file line
    match f with
    | some f => return (some f, z' :: zs)
    | none => do
      let (f, zs') ← borrowZones type file line zs
      return (f, z' :: zs')

/-- `ft_pool_lowmem_pubsub_msg_`. -/
def lowmemPubsubMsg (p : Pool) (framesAvailable : ℤ) (inc : Bool) : Pool :=
  { p with published := p.published ++ [⟨framesAvailable, inc⟩] }

/-- The warning that borrow and return send when the last zone is in use and frames run low. -/
def lowmemCheck (p : Pool) (inc : Bool) : Pool :=
  if p.lastZone ∧ p.framesTotal - p.framesUsed < FT_POOL_LOWMEM_LIMIT then
    p.lowmemPubsubMsg (p.framesTotal - p.framesUsed) inc
  else p

/-- The code behind `exit_with_frame` in `ft_pool_borrow_real_`. -/
def exitWithFrame (f : FrameId) : PoolM (Option FrameId) := do
  let p ← get
  if p.framesUsed < 0 then throw (.abort .poolFramesUsed)
  else
    let p := { p with framesUsed := p.framesUsed + 1, outstanding := f :: p.outstanding }
    set (p.lowmemCheck false)
    return some f

/-- `ft_pool_borrow_real_`. The argument `alloc` is what `alloc_fnct` asks for in this call, or
null if it fails. -/
def borrowReal (alloc : Option NewZone) (type : FrameType) (file : String) (line : ℕ) :
    PoolM (Option FrameId) := do
  let p ← get
  let (f, zones) ← borrowZones type file line p.zones
  match f with
  | some f =>
    modify fun p => { p with zones }
    exitWithFrame f
  | none =>
    if p.lastZone then return none
    else
      match alloc with
      | none => return none
      | some n =>
        let z ← poolzoneInit n
        modify fun p => { p with zones := p.zones ++ [z], lastZone := p.lastZone || n.lastZone }
        let (f, z') ← poolzoneBorrow z type file line
        match f with
        | none => return none
        | some f =>
          modify fun q => { q with zones := p.zones ++ [z'] }
          exitWithFrame f

/-- The zone fields that `ft_frame_return` changes. -/
def returnToZone (f : FrameId) (z : Zone) : Zone :=
  { z with
    availableFrames := some f, framesUsed := z.framesUsed - 1
    freeOnHb := z.framesUsed - 1 = 0 }

/-- `ft_frame_return`. A frame of a zone that is gone is not valid memory. -/
def frameReturn (f : FrameId) : PoolM Unit := do
  let p ← get
  let x := p.heap f
  if x.type = .free then throw (.abort .typeNotFree)
  else if x.lastSeenByFile = none then throw (.abort .lastSeenByFile)
  else if x.lastSeenByLine = 0 then throw (.abort .lastSeenByLine)
  else
    match p.zones.find? fun z => z.id = f.zone with
    | none => throw .misuse
    | some z =>
      let p := p.setFrame f { x with
        type := .free, next := z.availableFrames, lastSeenByFile := none, lastSeenByLine := 0
        data := if z.eraseOnReturn then fun _ => 0 else x.data }
      let p := { p with
        zones := p.zones.map fun z : Zone => if z.id = f.zone then returnToZone f z else z
        framesUsed := p.framesUsed - 1
        outstanding := p.outstanding.erase f }
      set (p.lowmemCheck true)

/-- The loop of `ft_pool_on_heartbeat` over the zones, with the abort of `_ft_poolzone_del`. -/
def heartbeatZones (now timeout : ℚ) : List Zone → Except Fault (List Zone)
  | [] => .ok []
  | z :: zs => do
    if ¬ z.freeable ∨ z.framesUsed > 0 then
      return z :: (← heartbeatZones now timeout zs)
    else if z.freeOnHb then
      return { z with freeAt := now + timeout, freeOnHb := false } ::
        (← heartbeatZones now timeout zs)
    else if z.freeAt ≥ now then
      return z :: (← heartbeatZones now timeout zs)
    else if z.framesUsed > 0 then
      throw (.abort .zoneFramesReturned)
    else
      heartbeatZones now timeout zs

/-- `ft_pool_on_heartbeat`, where `timeout` is `fpool_zone_free_timeout`. -/
def onHeartbeat (now timeout : ℚ) : PoolM Unit := do
  let p ← get
  let zones ← heartbeatZones now timeout p.zones
  set { p with zones }

/-- `ft_pool_init`. -/
def init (heap : FrameId → Frame) : Pool where
  zones := []
  lastZone := false
  framesTotal := 0
  framesUsed := 0
  heap := heap
  freshZone := 0
  outstanding := []
  published := []

/-- What users and the event loop do with a pool. -/
inductive Op
  | borrow (alloc : Option NewZone) (type : FrameType) (file : String) (line : ℕ)
  | frameReturn (f : FrameId)
  | heartbeat (now timeout : ℚ)
  | setNext (f : FrameId) (next : Option FrameId)

/-- One operation. Users return, and write into, only frames they hold, and never borrow a
frame as a free one, so other calls are not made. -/
def exec : Op → PoolM Unit
  | .borrow alloc type file line =>
    if type = .free ∨ line = 0 then pure ()
    else do
      let _ ← borrowReal alloc type file line
  | .frameReturn f => do
    if f ∈ (← get).outstanding then Pool.frameReturn f
  | .heartbeat now timeout => onHeartbeat now timeout
  | .setNext f next => do
    let p ← get
    if f ∈ p.outstanding then set (p.setFrame f { p.heap f with next })

def run (ops : List Op) : PoolM Unit := forM ops exec

end Pool

end FrameTransporter
