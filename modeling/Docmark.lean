import Docmark.Text.Basic
import Docmark.Text.Blank
import Docmark.Text.Case
import Docmark.Text.CodeBlock
import Docmark.Text.LineBreaks
import Docmark.Text.Number
import Docmark.Text.Property.Alphanumeric
import Docmark.Text.Property.CaseIgnorable
import Docmark.Text.Property.CaseMap
import Docmark.Text.Property.Cased
import Docmark.Text.Property.Ranges
import Docmark.Text.Slug
import Docmark.Text.Template
import Docmark.Member.DisplayName
import Docmark.Member.Id
import Docmark.Member.Kind
import Docmark.Member.Params
import Docmark.Member.TypeText
import Docmark.Markup.Attribute
import Docmark.Markup.Doctype
import Docmark.Markup.Document
import Docmark.Markup.Event
import Docmark.Markup.Fault
import Docmark.Markup.Node
import Docmark.Markup.Position
import Docmark.Markup.Reference
import Docmark.Markup.Token
import Docmark.Markup.Tree
import Docmark.Json.Quoted
import Docmark.Json.Reader
import Docmark.Json.Token
import Docmark.Json.Value
import Docmark.Metadata.Table
import Docmark.Metadata.TableReader
import Docmark.Metadata.TypeDescriptor
import Docmark.Page.Content
import Docmark.Page.Context
import Docmark.Page.Key
import Docmark.Page.Link
import Docmark.Page.Outcome
import Docmark.Page.Preparation
import Docmark.Page.Walk
import Docmark.Settings
import Docmark.Files.FileError
import Docmark.Files.FileSystem
import Docmark.Files.Path
import Docmark.Command.Arguments
import Docmark.Command.Conversion
import Docmark.Command.Environment
import Docmark.Command.Execution
import Docmark.Command.Failure
import Docmark.Command.Help
import Docmark.Command.Host
import Docmark.Command.Search
import Docmark.Command.SettingsFile
import Docmark.Command.Warning
import Docmark.Main
import Docmark.Proofs.Results
import Docmark.Proofs.Tree
import Docmark.Proofs.Blanks
import Docmark.Proofs.Cuts
import Docmark.Proofs.Keys
import Docmark.Proofs.Twins
import Docmark.Proofs.Wrapping
import Docmark.Proofs.Reach
import Docmark.Proofs.Warned
import Docmark.Proofs.Policies
import Docmark.Proofs.Sections
import Docmark.Proofs.Spelling
import Docmark.Proofs.TagText
import Docmark.Proofs.DocumentText
import Docmark.Proofs.Events
import Docmark.Proofs.Builder
import Docmark.Proofs.ReadBack
import Docmark.Proofs.Reports
import Docmark.Proofs.Places
import Docmark.Proofs.SourceOrder
import Docmark.Proofs.Templates
import Docmark.Proofs.Transparency
import Docmark.Proofs.Headings
import Docmark.Proofs.Casing
import Docmark.Proofs.Anchors
import Docmark.Proofs.Preparation
import Docmark.Proofs.Identifiers
import Docmark.Proofs.Metadata
import Docmark.Proofs.TypeSections
import Docmark.Proofs.Paths
import Docmark.Proofs.Files
import Docmark.Proofs.Trees
import Docmark.Proofs.Ascending
import Docmark.Proofs.Runs
import Docmark.Proofs.Search
import Docmark.Proofs.ParameterLists
import Docmark.Proofs.TypeTexts
import Docmark.Proofs.Braces
import Docmark.Proofs.Keywords
import Docmark.Proofs.Remarks
import Docmark.Proofs.TypeCells
import Docmark.Proofs.TypeLinks
import Docmark.Proofs.CodeBlocks
import Docmark.Proofs.Placeholders
import Docmark.Proofs.RunHeadings
import Docmark.Proofs.Rows
import Docmark.Proofs.RowBodies
import Docmark.Proofs.References
import Docmark.Proofs.Copies
import Docmark.Proofs.FoundFiles
import Docmark.Proofs.AssemblyDocs
import Docmark.Proofs.QuotedText
import Docmark.Proofs.JsonWords
import Docmark.Proofs.JsonValues
import Docmark.Proofs.Records
import Docmark.Proofs.DescriptorTexts
import Docmark.Proofs.SettingsTexts
import Docmark.Proofs.ArityMarkers
