import Parley.Config
import Parley.Conversation.Codec
import Parley.Session.Clock
import Parley.Session.Audience
import Parley.Chat.Typed
import Parley.Demo
import Parley.Json.Printer
import Parley.Main
import Parley.Proofs.Flow.Closed
import Parley.Proofs.Conversation.Arrival
import Parley.Proofs.Conversation.Coherent
import Parley.Proofs.Graph.Splice
import Parley.Proofs.Graph.Wired
import Parley.Proofs.History.Zipper
import Parley.Proofs.Graph.Alike
import Parley.Proofs.Editor.Step
import Parley.Proofs.Editor.Visible
import Parley.Proofs.Editor.Drawing
import Parley.Proofs.Editor.Dragging
import Parley.Proofs.Conversation.Roaming
import Parley.Proofs.Conversation.OnGraph
import Parley.Proofs.Graph.Sound
import Parley.Proofs.Graph.Found
import Parley.Proofs.Editor.Sound
import Parley.Proofs.Editor.Commits
import Parley.Proofs.Editor.UpToDate
import Parley.Proofs.Conversation.Moves
import Parley.Proofs.Conversation.Observer
import Parley.Proofs.Conversation.Tickets
import Parley.Proofs.Conversation.Acceptance
import Parley.Proofs.Conversation.Abreast
import Parley.Proofs.Conversation.Steering
import Parley.Proofs.Flow.Growth
import Parley.Proofs.Flow.Acyclic
import Parley.Proofs.Session.Round
import Parley.Proofs.Session.Acts
import Parley.Proofs.Session.OneTimer
import Parley.Proofs.Session.Stopping
import Parley.Proofs.Session.Answers
import Parley.Proofs.Conversation.Growth
import Parley.Proofs.Flow.Detour
import Parley.Proofs.Conversation.Captured
import Parley.Proofs.Conversation.Detour
import Parley.Proofs.Conversation.Visits
import Parley.Proofs.Conversation.Fields
import Parley.Proofs.Graph.Copies
import Parley.Proofs.Graph.Removal
import Parley.Proofs.Graph.Repeated
import Parley.Proofs.Graph.Codec
import Parley.Proofs.Editor.Choices
import Parley.Proofs.Editor.Gesture
import Parley.Proofs.Editor.Removal
import Parley.Proofs.Editor.Confirmation
import Parley.Proofs.Session.Serving
import Parley.Proofs.Chat.Offers
import Parley.Proofs.Chat.Exchange
import Parley.Proofs.Chat.Room
import Parley.Proofs.Chat.Picks
