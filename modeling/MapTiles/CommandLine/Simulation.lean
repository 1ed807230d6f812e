import MapTiles.CommandLine.Error
import MapTiles.CommandLine.Options
import MapTiles.Decimal.Shortest
import MapTiles.Source
import MapTiles.Text.Column

/-!
The `simulate` command: a view moves over a Web Mercator layer whose loads all take the same time
and fail with a given probability. It moves once per interval, the first time at once. After the
last interval the source has two more seconds, and a summary ends the report.

Latency and intervals pass on a clock of the simulation, each for as long as a timer of the runtime
runs that is set for it. Failures are stamped by the wall clock,
and on that a simulation takes no time, so no failed tile comes due for another attempt and the
timers of the source are left out.
-/

namespace MapTiles.CommandLine

/-- What is asked of the `simulate` command. -/
structure Simulation where
  steps : Nat
  failureRate : Float
  latency : Duration
  interval : Duration
  level : Int
  config : Option String

namespace Simulation

def options : List KnownOption :=
  [⟨"steps", false⟩, ⟨"failure-rate", false⟩, ⟨"latency-ms", false⟩, ⟨"interval-ms", false⟩,
    ⟨"level", false⟩, ⟨"config", false⟩]

/-- Reads the arguments of the command, or nothing if they are not understood. -/
def read? (arguments : List String) : Option Simulation := do
  let given ← Options.read? options arguments
  let steps ← given.value? "steps" readCount (some 20)
  let failureRate ← given.value? "failure-rate" readNumber (some 0.1)
  let latency ← given.value? "latency-ms" readLongCount (some 50)
  let interval ← given.value? "interval-ms" readLongCount (some 250)
  let level ← given.value? "level" (readBetween (-Nat.pow 2 31) (Nat.pow 2 31 - 1)) (some 6)
  let config ←
    given.value? "config" (fun path => if path.isEmpty then none else some (some path)) (some none)
  return {
    steps := steps
    failureRate := failureRate
    latency := Duration.ofMillis latency
    interval := Duration.ofMillis interval
    level := level
    config := config }

/-- The first argument that is out of its range. -/
def fault? (s : Simulation) : Option CommandError :=
  if !(0.0 ≤ s.failureRate && s.failureRate ≤ 1.0) then
    some (.argument ("--failure-rate must be within 0..=1, got " ++
      Decimal.write .plain s.failureRate))
  else if s.level < 0 ∨ Mercator.deepestLevel < s.level then
    some (.argument ("--level must be within 0..=" ++ Int.repr Mercator.deepestLevel ++ ", got " ++
      Int.repr s.level))
  else none

def layer (s : Simulation) : Except LayerError Layer := do
  let web ← WebLayer.new "synthetic" "synthetic://\x7bz\x7d/\x7bx\x7d/\x7by\x7d"
  let web ← web.withRange 0 s.level
  return web.toLayer

/-- A number in `[0, 1)` and the next state of the generator. -/
def draw (generator : StdGen) : Float × StdGen :=
  let (low, high) := stdRange
  let (n, next) := stdNext generator
  (Float.ofNat (n - low) / Float.ofNat (high - low + 1), next)

/-- The view four tiles wide and three tiles high around a place on the equator. -/
def viewAround (s : Simulation) (tileWidth x : Float) : WantedView where
  bounds := Rect.ofCorners mercatorSystem (x - tileWidth * 2.0) (0.0 + tileWidth * 1.5)
    (x + tileWidth * 2.0) (0.0 - tileWidth * 1.5)
  zoom := Mercator.zoomOf s.level

/-- A load on its way, with the outcome that it brings. A payload is the key. -/
structure Flight where
  tile : Tile
  outcome : Outcome String
  lands : Instant

/-- The source in a simulation, the loads on their way, soonest first, and whether there was a
notification since the view moved last. -/
structure Course where
  timer : Duration → Duration
  source : Source String
  flights : List Flight
  generator : StdGen
  now : Instant
  notified : Bool

/-- Puts a load behind all that land no later. -/
def insertFlight (f : Flight) : List Flight → List Flight
  | [] => [f]
  | g :: rest => if f.lands < g.lands then f :: g :: rest else g :: insertFlight f rest

def perform (s : Simulation) (c : Course) : Source.Effect → Course
  | .load tile key =>
    let (x, next) := draw c.generator
    let outcome :=
      if x < s.failureRate then .failed (.network "simulated failure") else .loaded key
    { c with
      generator := next
      flights := insertFlight ⟨tile, outcome, c.now + c.timer s.latency⟩ c.flights }
  | .notify => { c with notified := true }
  | _ => c

def wallClock : Instant :=
  0

def give (s : Simulation) (c : Course) (message : Source.Message String) : Course :=
  let turn := c.source.handle wallClock message
  turn.effects.foldl s.perform { c with source := turn.source }

/-- Gives the source a message and, as no others wait, a flush behind it. -/
def tell (s : Simulation) (c : Course) (message : Source.Message String) : Course :=
  s.give (s.give c message) .flush

/-- Lets the loads land that do so before `t`, at most `limit` of them. -/
def landBefore (s : Simulation) (t : Instant) : Nat → Course → Course
  | 0, c => c
  | limit + 1, c =>
    match c.flights with
    | [] => c
    | f :: rest =>
      if f.lands < t then
        landBefore s t limit
          (s.tell { c with flights := rest, now := f.lands } (.loaded f.tile f.outcome))
      else c

/-- Lets time pass. While the view stands still a load ends for good, and those that start come
from the queue. What happens at the end of that time comes before the loads that land then. -/
def pass (s : Simulation) (c : Course) (d : Duration) : Course :=
  let target := c.now + d
  let limit := c.flights.length + c.source.loading.queue.size
  { s.landBefore target limit c with now := target }

def progressLine (step resident : Nat) : String :=
  "step " ++ Text.alignRight 3 (Nat.repr step) ++ "  resident " ++
    Text.alignRight 4 (Nat.repr resident)

def summary (s : Simulation) (state : Snapshot) : List String :=
  ["", "Simulation finished after " ++ Nat.repr s.steps ++ " steps",
    "  visible:       " ++ Nat.repr state.visible,
    "  resident:      " ++ Nat.repr state.resident.length,
    "  in flight:     " ++ Nat.repr state.inFlight.length,
    "  backing off:   " ++ Nat.repr state.failed.length]

/-- Moves the view `left` more times, each time followed by an interval, and says how many tiles are
published at the end of every interval with a notification. -/
def pan (s : Simulation) (tileWidth : Float) : Nat → Float → Course → List String × Course
  | 0, _, c => ([], c)
  | left + 1, x, c =>
    let x := x + tileWidth * 0.75
    let moved := s.tell { c with notified := false } (.show (s.viewAround tileWidth x))
    let after := s.pass moved (c.timer (max s.interval Duration.millisecond))
    let lines :=
      if after.notified then [progressLine (s.steps - left) after.source.published.length] else []
    let (others, last) := pan s tileWidth left x after
    (lines ++ others, last)

/-- The lines of the whole simulation of a source. -/
def lines (s : Simulation) (timer : Duration → Duration) (source : Source String)
    (generator : StdGen) : List String :=
  let tileWidth := Float.ofInt Mercator.baseTileWidth / Mercator.powerOfTwo s.level
  let (progress, panned) := s.pan tileWidth s.steps 0.0 ⟨timer, source, [], generator, 0, false⟩
  let settled := s.pass panned (2 * Duration.second)
  progress ++ s.summary settled.source.loading.snapshot

/-- What the command prints with given settings. -/
def report (s : Simulation) (timer : Duration → Duration) (config : Except ConfigError Config)
    (generator : StdGen) : Except CommandError (List String) := do
  if let some fault := s.fault? then throw fault
  let config ← CommandError.ofConfig config
  let layer ← CommandError.ofLayer s.layer
  let source ← CommandError.ofConfig (Source.build layer config Converter.standard true)
  return s.lines timer source generator

end Simulation

end MapTiles.CommandLine
