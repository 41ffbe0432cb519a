import Packaging.About
import Packaging.Descriptor.File
import Packaging.Descriptor.Json
import Packaging.Descriptor.Sample
import Packaging.History.File
import Packaging.Template.Build
import Packaging.Template.Warnings
import Packaging.Proofs.Document.Grammar
import Packaging.Proofs.Text.Trim
import Packaging.Proofs.Document.Cut
import Packaging.Proofs.Template.Replacement
import Packaging.Proofs.Path.Components
import Packaging.Proofs.Path.Normal
import Packaging.Proofs.Path.Relative
import Packaging.Proofs.Path.Spelled
import Packaging.Proofs.Text.Lines
import Packaging.Proofs.Text.Paragraphs
import Packaging.Proofs.Descriptor.Entry
import Packaging.Proofs.Text.Items
import Packaging.Proofs.Descriptor.Layout
import Packaging.Proofs.Descriptor.Written
import Packaging.Proofs.Descriptor.Found
import Packaging.Proofs.Descriptor.Reading
import Packaging.Proofs.Descriptor.Seen
import Packaging.Proofs.Descriptor.Values
import Packaging.Proofs.Descriptor.PathValues
import Packaging.Proofs.Descriptor.RoundTrip
import Packaging.Proofs.Path.Weight
import Packaging.Proofs.Descriptor.Loss
import Packaging.Proofs.Descriptor.Survival
import Packaging.Proofs.Descriptor.Rewrite
import Packaging.Proofs.Markup.Escape
import Packaging.Proofs.Template.Injection
import Packaging.Proofs.Template.Suspect
import Packaging.Proofs.Template.Warnings
import Packaging.Proofs.Calendar.Written
import Packaging.Proofs.History.Records
import Packaging.Proofs.History.Reread
import Packaging.Proofs.Document.Run
import Packaging.Proofs.Document.Pairs
import Packaging.Proofs.Document.OpenBlock
import Packaging.Proofs.Descriptor.Alike
import Packaging.Proofs.Version
import Packaging.Proofs.Descriptor.Accepted
import Packaging.Proofs.Descriptor.Rules
import Packaging.Proofs.Descriptor.FirstFault
import Packaging.Proofs.Descriptor.Presence
import Packaging.Proofs.Document.Rearranged
import Packaging.Proofs.Descriptor.Rearranged
import Packaging.Proofs.History.Sections
import Packaging.Proofs.Document.Refusal
import Packaging.Proofs.Document.Append
import Packaging.Proofs.History.Releases
import Packaging.Proofs.Document.Index
import Packaging.Proofs.Descriptor.Unknown
import Packaging.Proofs.Template.Facts
import Packaging.Proofs.Path.Absolute
import Packaging.Proofs.Descriptor.File
import Packaging.Proofs.Markup.Blocks
import Packaging.Proofs.Markup.Description
import Packaging.Proofs.Descriptor.ReadsBack
import Packaging.Proofs.Text.Gaps
import Packaging.Proofs.Path.Canonical
import Packaging.Proofs.History.Wrapped
import Packaging.Proofs.Document.Verbatim
