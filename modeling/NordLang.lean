import NordLang.Guide
import NordLang.Main
import NordLang.Proofs.Grammar.Derivation
import NordLang.Proofs.Grammar.Soundness
import NordLang.Proofs.Grammar.Completeness
import NordLang.Proofs.Grammar.Recognition
import NordLang.Proofs.Lexing.Lexeme
import NordLang.Proofs.Lexing.Tiling
import NordLang.Proofs.Grammar.Content
import NordLang.Proofs.Grammar.Text
import NordLang.Proofs.Layout.WellFormed
import NordLang.Proofs.Layout.Spacing
import NordLang.Proofs.Layout.RoundTrip
import NordLang.Proofs.Layout.Source
import NordLang.Proofs.Layout.Canonical
import NordLang.Proofs.Layout.Grouping
import NordLang.Proofs.Reader.Sight
import NordLang.Proofs.Grammar.Lookahead
import NordLang.Proofs.Grammar.Viability
import NordLang.Proofs.Grammar.Rejection
import NordLang.Proofs.Grammar.OnDemand
import NordLang.Proofs.Command.Verbosity
import NordLang.Proofs.Layout.NormalForm
import NordLang.Proofs.Layout.Storing
import NordLang.Proofs.Store.Access
import NordLang.Proofs.Text.RoundTrip
import NordLang.Proofs.Session.Tools
import NordLang.Proofs.Session.Agreement
import NordLang.Proofs.Lexing.Places
import NordLang.Proofs.Reader.Queue
import NordLang.Proofs.Grammar.Steps
import NordLang.Proofs.Session.Cache
import NordLang.Proofs.Json.Rendering
import NordLang.Proofs.Tree.Dump
import NordLang.Proofs.Grammar.Ranges
import NordLang.Proofs.Grammar.Introducers
import NordLang.Proofs.Lexing.Cutting
import NordLang.Proofs.Lexing.Offence
import NordLang.Proofs.Grammar.Blanks
import NordLang.Proofs.Lexing.Literals
import NordLang.Proofs.Grammar.Ending
import NordLang.Proofs.Text.Quoted
import NordLang.Proofs.Command.Listing
import NordLang.Proofs.Grammar.Descent
import NordLang.Proofs.Grammar.Termination
import NordLang.Proofs.Grammar.Progress
import NordLang.Proofs.Settings.Override
import NordLang.Proofs.Layout.Defects
import NordLang.Proofs.Store.Frame
import NordLang.Proofs.Session.Writing
