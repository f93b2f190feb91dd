import Easel.CommandLine.Arguments
import Easel.CommandLine.Report
import Easel.Main
import Easel.Operation.Describe
import Easel.Render.FrameChannel
import Easel.Canvas.Recording
import Easel.Proofs.Canvas.Painting
import Easel.Proofs.Operation.Leaves
import Easel.Proofs.Render.Worker
import Easel.Proofs.Render.DoubleBuffer
import Easel.Proofs.Render.Machine
import Easel.Proofs.Render.Delivery
import Easel.Proofs.Script.History
import Easel.Proofs.Script.Reading
import Easel.Proofs.Script.Specification
import Easel.Proofs.Studio.Turns
import Easel.Proofs.Scene.Glyph
import Easel.Proofs.Script.Picture
import Easel.Proofs.Script.Showing
import Easel.Proofs.Studio.Authors
import Easel.Proofs.Studio.Ledger
import Easel.Proofs.Studio.Frames
import Easel.Proofs.Studio.Players
import Easel.Proofs.Studio.Exchange
import Easel.Proofs.Studio.Outcome
import Easel.Proofs.Script.Desk
import Easel.Proofs.Studio.Mirrors
import Easel.Proofs.Studio.Company
import Easel.Proofs.Studio.Independence
import Easel.Proofs.Studio.Gallery
import Easel.Proofs.Studio.Leftovers
import Easel.Proofs.Script.Moves
import Easel.Proofs.Studio.Chronicle
import Easel.Proofs.Operation.Regions
import Easel.Proofs.Studio.Isolation
import Easel.Proofs.Text.Joining
import Easel.Proofs.Script.Splitting
import Easel.Proofs.Render.Lifecycle
import Easel.Proofs.Terminal.Display
import Easel.Proofs.Terminal.Frame
import Easel.Proofs.Render.Traffic
import Easel.Proofs.Render.Wakeup
import Easel.Proofs.Text.Encoding
import Easel.Proofs.Script.Refusals
import Easel.Proofs.Canvas.Palette
import Easel.Proofs.Studio.Exhibits
import Easel.Proofs.Studio.Relay
import Easel.Proofs.CommandLine.Summary
import Easel.Proofs.Render.Congestion
import Easel.Proofs.Script.FirstFault
import Easel.Proofs.Studio.Omissions
import Easel.Proofs.CommandLine.Precedence
import Easel.Proofs.Render.Fatality
import Easel.Proofs.Render.Aftermath
import Easel.Proofs.Terminal.Printing
import Easel.Proofs.Terminal.Elision
import Easel.Proofs.Operation.Nesting
import Easel.Proofs.Canvas.Places
import Easel.Proofs.Canvas.Slices
import Easel.Proofs.Operation.LastWriter
import Easel.Proofs.Script.Grammar
import Easel.Proofs.Script.Scaling
import Easel.Proofs.Script.WholePixels
import Easel.Proofs.Scene.Reordering
import Easel.Proofs.Scene.Handles
import Easel.Proofs.Terminal.Offers
import Easel.Proofs.Terminal.Sampling
import Easel.Proofs.Canvas.Overlap
