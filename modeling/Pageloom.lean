import Pageloom.Artifacts
import Pageloom.Builder
import Pageloom.Builder.Component
import Pageloom.ClientScript
import Pageloom.Collection
import Pageloom.Command
import Pageloom.Command.Arguments
import Pageloom.Command.Run
import Pageloom.Counter
import Pageloom.Document
import Pageloom.Entries
import Pageloom.Factory
import Pageloom.Fault
import Pageloom.Files
import Pageloom.Forest
import Pageloom.Handler
import Pageloom.Inherent
import Pageloom.Instruction
import Pageloom.Instruction.Compile
import Pageloom.Json
import Pageloom.Main
import Pageloom.Markup
import Pageloom.Module
import Pageloom.Moment
import Pageloom.Node
import Pageloom.Notice
import Pageloom.Number.Double
import Pageloom.Number.Shortest
import Pageloom.Page
import Pageloom.Path
import Pageloom.Preview
import Pageloom.Program
import Pageloom.Proofs.Agreement
import Pageloom.Proofs.Building
import Pageloom.Proofs.Construction
import Pageloom.Proofs.Cycles
import Pageloom.Proofs.Entries
import Pageloom.Proofs.Evaluation
import Pageloom.Proofs.Filling
import Pageloom.Proofs.Gathering
import Pageloom.Proofs.Holding
import Pageloom.Proofs.Linking
import Pageloom.Proofs.Making
import Pageloom.Proofs.Mirroring
import Pageloom.Proofs.Nesting
import Pageloom.Proofs.Outcome
import Pageloom.Proofs.Picture
import Pageloom.Proofs.Rebuild
import Pageloom.Proofs.Standing
import Pageloom.Proofs.Trees
import Pageloom.Proofs.ValueNodes
import Pageloom.Reading
import Pageloom.Session
import Pageloom.Settings
import Pageloom.Settings.Load
import Pageloom.Sigil
import Pageloom.Style
import Pageloom.Text.Digit
import Pageloom.Text.Edit
import Pageloom.Text.Escape
import Pageloom.Text.LetterCase
import Pageloom.Text.LetterCase.Table
import Pageloom.Text.Lines
import Pageloom.Text.Literal
import Pageloom.Text.Piece
import Pageloom.Text.Quoted
import Pageloom.Text.Terminal
import Pageloom.Text.Unprintable
import Pageloom.Toml
import Pageloom.Toml.Nest
import Pageloom.Toml.Statement
import Pageloom.Toml.Token
import Pageloom.Value
import Pageloom.Value.Key
import Pageloom.Value.Text
import Pageloom.Proofs.Shape
import Pageloom.Proofs.Requests
import Pageloom.Proofs.Loading
import Pageloom.Proofs.Sides
import Pageloom.Proofs.NewNodes
import Pageloom.Proofs.Mounting
import Pageloom.Proofs.DocumentOrder
import Pageloom.Proofs.Hooks
import Pageloom.Proofs.Parameters
import Pageloom.Proofs.TellingApart
import Pageloom.Proofs.TakingChildren
import Pageloom.Proofs.Headers
import Pageloom.Proofs.Layers
import Pageloom.Proofs.Returns
import Pageloom.Proofs.InlineHooks
import Pageloom.Proofs.Literals
import Pageloom.Proofs.InlineScripts
import Pageloom.Proofs.FailedMounts
import Pageloom.Proofs.LiveLinks
import Pageloom.Proofs.PageOrder
import Pageloom.Proofs.ScriptLines
import Pageloom.Proofs.StyleBlocks
import Pageloom.Proofs.GivenSettings
import Pageloom.Proofs.Writing
import Pageloom.Proofs.OutputFiles
import Pageloom.Proofs.RefusedSettings
import Pageloom.Proofs.FactoryLines
