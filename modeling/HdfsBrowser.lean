import HdfsBrowser.Client
import HdfsBrowser.Client.Plain
import HdfsBrowser.Client.Punycode
import HdfsBrowser.CommandLine.Command
import HdfsBrowser.CommandLine.Course
import HdfsBrowser.CommandLine.Grammar
import HdfsBrowser.CommandLine.LocalFiles
import HdfsBrowser.CommandLine.Run
import HdfsBrowser.CommandLine.Terminal
import HdfsBrowser.Entry
import HdfsBrowser.Fault
import HdfsBrowser.FileBlock
import HdfsBrowser.FileSheet
import HdfsBrowser.Gateway.Call
import HdfsBrowser.Gateway.Operation
import HdfsBrowser.Gateway.Outcome
import HdfsBrowser.Http.Exchange
import HdfsBrowser.Http.Message
import HdfsBrowser.Http.Response
import HdfsBrowser.Http.Wire
import HdfsBrowser.Json.Literal
import HdfsBrowser.Json.Parser
import HdfsBrowser.Json.Printer
import HdfsBrowser.Json.Reading
import HdfsBrowser.Json.Value
import HdfsBrowser.Json.WellFormed
import HdfsBrowser.Listing
import HdfsBrowser.Main
import HdfsBrowser.Number.Amount
import HdfsBrowser.Number.Binary64
import HdfsBrowser.Number.Decimal
import HdfsBrowser.Number.Integer
import HdfsBrowser.Number.Power
import HdfsBrowser.Number.Rounding
import HdfsBrowser.Number.Timestamp
import HdfsBrowser.Page
import HdfsBrowser.Path
import HdfsBrowser.Permission
import HdfsBrowser.Session.Activity
import HdfsBrowser.Session.Basic
import HdfsBrowser.Session.Change
import HdfsBrowser.Session.Console
import HdfsBrowser.Session.Navigation
import HdfsBrowser.Session.Screen
import HdfsBrowser.Settings.Basic
import HdfsBrowser.Settings.Folder
import HdfsBrowser.Settings.Store
import HdfsBrowser.Text.Blank
import HdfsBrowser.Text.Charset
import HdfsBrowser.Text.Column
import HdfsBrowser.Text.Digit
import HdfsBrowser.Text.Printable
import HdfsBrowser.Text.Quoted
import HdfsBrowser.Text.Utf8
import HdfsBrowser.Url.Basic
import HdfsBrowser.Url.Fault
import HdfsBrowser.Url.Form
import HdfsBrowser.Url.Host
import HdfsBrowser.Url.Parser
import HdfsBrowser.Url.Percent
import HdfsBrowser.Proofs.CommandLine.Course
import HdfsBrowser.Proofs.CommandLine.Effect
import HdfsBrowser.Proofs.CommandLine.ExitStatus
import HdfsBrowser.Proofs.CommandLine.Situation
import HdfsBrowser.Proofs.Computation
import HdfsBrowser.Proofs.FileSheet.Menu
import HdfsBrowser.Proofs.FileSheet.Status
import HdfsBrowser.Proofs.Gateway.Body
import HdfsBrowser.Proofs.Gateway.Delivery
import HdfsBrowser.Proofs.Gateway.Fates
import HdfsBrowser.Proofs.Gateway.Query
import HdfsBrowser.Proofs.Gateway.Resolution
import HdfsBrowser.Proofs.Gateway.Resource
import HdfsBrowser.Proofs.Gateway.Response
import HdfsBrowser.Proofs.Http.Redirection
import HdfsBrowser.Proofs.Json.Consumption
import HdfsBrowser.Proofs.Json.Decimal
import HdfsBrowser.Proofs.Json.Escape
import HdfsBrowser.Proofs.Json.Numeral
import HdfsBrowser.Proofs.Json.RoundTrip
import HdfsBrowser.Proofs.Json.WellFormed
import HdfsBrowser.Proofs.Listing.Projection
import HdfsBrowser.Proofs.Listing.Rows
import HdfsBrowser.Proofs.Number.Binary64
import HdfsBrowser.Proofs.Number.Integer
import HdfsBrowser.Proofs.Number.Nearest
import HdfsBrowser.Proofs.Number.Shortest
import HdfsBrowser.Proofs.Number.Timestamp
import HdfsBrowser.Proofs.Page.Alignment
import HdfsBrowser.Proofs.Page.Characters
import HdfsBrowser.Proofs.Page.Listing
import HdfsBrowser.Proofs.Path.Child
import HdfsBrowser.Proofs.Path.Normal
import HdfsBrowser.Proofs.Path.Trail
import HdfsBrowser.Proofs.Permission.Number
import HdfsBrowser.Proofs.Permission.Symbolic
import HdfsBrowser.Proofs.Permission.Text
import HdfsBrowser.Proofs.Session.Address
import HdfsBrowser.Proofs.Session.Batch
import HdfsBrowser.Proofs.Session.Browsing
import HdfsBrowser.Proofs.Session.Change
import HdfsBrowser.Proofs.Session.Chronicle
import HdfsBrowser.Proofs.Session.Commitment
import HdfsBrowser.Proofs.Session.Control
import HdfsBrowser.Proofs.Session.Deed
import HdfsBrowser.Proofs.Session.Echo
import HdfsBrowser.Proofs.Session.Heading
import HdfsBrowser.Proofs.Session.Inspection
import HdfsBrowser.Proofs.Session.Journey
import HdfsBrowser.Proofs.Session.Overtaking
import HdfsBrowser.Proofs.Session.Permission
import HdfsBrowser.Proofs.Session.Preview
import HdfsBrowser.Proofs.Session.Run
import HdfsBrowser.Proofs.Session.Selection
import HdfsBrowser.Proofs.Session.Share
import HdfsBrowser.Proofs.Session.Standstill
import HdfsBrowser.Proofs.Session.Travel
import HdfsBrowser.Proofs.Session.Validation
import HdfsBrowser.Proofs.Settings.Atomicity
import HdfsBrowser.Proofs.Settings.Conversion
import HdfsBrowser.Proofs.Settings.Folder
import HdfsBrowser.Proofs.Settings.Loading
import HdfsBrowser.Proofs.Settings.RoundTrip
import HdfsBrowser.Proofs.Settings.Update
import HdfsBrowser.Proofs.Text.Splitting
import HdfsBrowser.Proofs.Text.Utf8
import HdfsBrowser.Proofs.Upload.Books
import HdfsBrowser.Proofs.Upload.Course
import HdfsBrowser.Proofs.Upload.Sibling
import HdfsBrowser.Proofs.Upload.Stage
import HdfsBrowser.Proofs.Url.Components
import HdfsBrowser.Proofs.Url.Dots
import HdfsBrowser.Proofs.Url.Form
import HdfsBrowser.Proofs.Url.Host
import HdfsBrowser.Proofs.Url.Percent
import HdfsBrowser.Proofs.Url.Resource
