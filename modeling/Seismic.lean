import Seismic.Number.Binary64
import Seismic.Number.Scalar
import Seismic.Number.Numeral
import Seismic.Number.Decimal
import Seismic.Text.Utf8
import Seismic.Text.Escape
import Seismic.Address
import Seismic.Table
import Seismic.Recording
import Seismic.Product
import Seismic.Archive.Query
import Seismic.Archive.Register
import Seismic.Snapshot
import Seismic.Window
import Seismic.Request.Line
import Seismic.Request.Basic
import Seismic.Connection
import Seismic.Options
import Seismic.Main
import Seismic.Proofs.Slots
import Seismic.Proofs.Staleness
import Seismic.Proofs.Binary64Order
import Seismic.Proofs.Written
import Seismic.Proofs.Fields
import Seismic.Proofs.Tables
import Seismic.Proofs.Resolution
import Seismic.Proofs.Lockstep
import Seismic.Proofs.Framing
import Seismic.Proofs.Transcript
import Seismic.Proofs.Withholding
import Seismic.Proofs.Servable
import Seismic.Proofs.Asked
import Seismic.Proofs.Decoded
import Seismic.Proofs.Delimited
import Seismic.Proofs.Dispatch
import Seismic.Proofs.Renderings
import Seismic.Proofs.Emptiness
import Seismic.Proofs.Placing
import Seismic.Proofs.Registration
import Seismic.Proofs.Consistency
import Seismic.Proofs.Replies
import Seismic.Proofs.Clients
import Seismic.Proofs.Correlation
import Seismic.Proofs.Records
import Seismic.Proofs.Menus
import Seismic.Proofs.Loading
import Seismic.Proofs.Balance
import Seismic.Proofs.Overlay
import Seismic.Proofs.Rounding
import Seismic.Proofs.Extent
import Seismic.Proofs.Representable
import Seismic.Proofs.Coverage
import Seismic.Proofs.Gaps
import Seismic.Proofs.Truncation
import Seismic.Proofs.Buckets
import Seismic.Proofs.Gathering
import Seismic.Proofs.Keys
import Seismic.Proofs.Coarsening
import Seismic.Proofs.Arrivals
import Seismic.Proofs.Doubling
import Seismic.Proofs.Reloading
import Seismic.Proofs.Buffered
import Seismic.Proofs.Products
import Seismic.Proofs.Tokens
import Seismic.Proofs.Canonical
import Seismic.Proofs.Addresses
import Seismic.Proofs.Spelling
import Seismic.Proofs.Millionths
import Seismic.Proofs.Slicing
import Seismic.Proofs.Ages
import Seismic.Proofs.Bounds
