import MapTiles.Text.Diagnostic

/-!
Mailboxes. Messages wait in the order in which they were pushed, but a message that replaces the
newest takes the place of a waiting message of the same kind and identifier. A push into an empty
mailbox owes one delivery to the scheduler, and a delivery that leaves messages behind owes the
next one.
-/

namespace MapTiles

/-- What a message does to waiting messages. -/
inductive Duplication where
  | append
  | replaceNewest
deriving DecidableEq

/-- A message with the name of its purpose. -/
structure Envelope (μ : Type) where
  identifier : String
  duplication : Duplication
  content : μ

/-- The messages that wait, oldest first. -/
structure Mailbox (μ : Type) where
  queue : List (Envelope μ)

namespace Mailbox

variable {μ : Type}

def empty : Mailbox μ :=
  ⟨[]⟩

/-- Whether a waiting message gives way to another. -/
def givesWay (waiting message : Envelope μ) : Bool :=
  waiting.duplication == .replaceNewest && message.duplication == .replaceNewest &&
    waiting.identifier == message.identifier

/-- Puts a message in the place of the first one that gives way to it, or else behind all. -/
def place (message : Envelope μ) : List (Envelope μ) → List (Envelope μ)
  | [] => [message]
  | waiting :: rest =>
    if givesWay waiting message then message :: rest else waiting :: place message rest

/-- Pushes a message. The flag tells whether a delivery is owed for it. -/
def push (m : Mailbox μ) (message : Envelope μ) : Mailbox μ × Bool :=
  (⟨place message m.queue⟩, m.queue.isEmpty)

/-- Takes the oldest message. -/
def pop? (m : Mailbox μ) : Option (Envelope μ × Mailbox μ) :=
  match m.queue with
  | [] => none
  | message :: rest => some (message, ⟨rest⟩)

def diagnostic (m : Mailbox μ) : String :=
  Text.record "Mailbox" [("queued", Nat.repr m.queue.length)] false

end Mailbox

/-- A message as a diagnostic text, which does not show the content. -/
def Envelope.diagnostic {μ : Type} (e : Envelope μ) : String :=
  let strategy :=
    match e.duplication with
    | .append => "None"
    | .replaceNewest => "ReplaceNewest"
  Text.record "MailboxMessage" [("identifier", Text.quoted e.identifier), ("strategy", strategy)]
    false

end MapTiles
