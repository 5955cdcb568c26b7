import VgiSymbols.Basic.Unwind
import VgiSymbols.Basic.Table
import VgiSymbols.Basic.Lru
import VgiSymbols.Basic.Values
import VgiSymbols.Basic.Run
import VgiSymbols.Basic.Sweep
import VgiSymbols.Basic.Pairs
import VgiSymbols.Basic.Nested
import VgiSymbols.Basic.Nearest
import VgiSymbols.Basic.Choices
import VgiSymbols.Basic.Traversal
import VgiSymbols.Core.State
import VgiSymbols.Core.Inspect
import VgiSymbols.Module.Guid
import VgiSymbols.Module.Walk
import VgiSymbols.Module.Physical
import VgiSymbols.Module.Corrupt
import VgiSymbols.Module.Names
import VgiSymbols.Module.Symbols
import VgiSymbols.Source.Listing
import VgiSymbols.Source.Registry
import VgiSymbols.Source.Numbered
import VgiSymbols.Source.Eager
import VgiSymbols.Source.Ahead
import VgiSymbols.Source.Contents
import VgiSymbols.Source.Interrupted
import VgiSymbols.Source.Unique
import VgiSymbols.Source.Braces
import VgiSymbols.Source.Tree
import VgiSymbols.Cache.Spec
import VgiSymbols.Cache.Runs
import VgiSymbols.Cache.Manifest
import VgiSymbols.Cache.Accounting
import VgiSymbols.Cache.Budget
import VgiSymbols.Cache.OwnId
import VgiSymbols.Cache.Counts
import VgiSymbols.Cache.Timeless
import VgiSymbols.State.Lookup
import VgiSymbols.State.Consistent
import VgiSymbols.State.Transparency
import VgiSymbols.State.RightModule
import VgiSymbols.State.FastPath
import VgiSymbols.State.ParseOnce
import VgiSymbols.State.Negative
import VgiSymbols.State.Containment
import VgiSymbols.State.Durable
import VgiSymbols.State.Redelivery
import VgiSymbols.State.Counts
import VgiSymbols.State.Shape
import VgiSymbols.State.Origin
import VgiSymbols.State.Isolation
import VgiSymbols.State.Atomic
import VgiSymbols.State.Spelling
import VgiSymbols.State.Named
import VgiSymbols.State.Resident
import VgiSymbols.State.FallThrough
import VgiSymbols.State.Status
import VgiSymbols.Worker.Evict
import VgiSymbols.Worker.Batch
import VgiSymbols.Worker.Scalars
import VgiSymbols.Worker.Tables
import VgiSymbols.Worker.Session
import VgiSymbols.Worker.Pure
import VgiSymbols.State.Provenance
import VgiSymbols.Worker.Report
import VgiSymbols.Source.Local
import VgiSymbols.State.Alike
import VgiSymbols.State.Inert
import VgiSymbols.Source.Globs
import VgiSymbols.State.Globs
import VgiSymbols.Source.Specs
import VgiSymbols.Source.Confined
import VgiSymbols.State.Confined
import VgiSymbols.Basic.Ledger
import VgiSymbols.State.Ledger
import VgiSymbols.State.Walks
import VgiSymbols.Basic.Recency
import VgiSymbols.Cache.Recency
import VgiSymbols.State.Inclusion
import VgiSymbols.State.Triage
