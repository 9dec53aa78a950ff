import CryptoFlex.Api
import CryptoFlex.Api.AllSources
import CryptoFlex.Api.AtomicFiles
import CryptoFlex.Api.Blob
import CryptoFlex.Api.Descriptors
import CryptoFlex.Api.Downgrade
import CryptoFlex.Api.Failures
import CryptoFlex.Api.KeyRecovery
import CryptoFlex.Api.MigrateFile
import CryptoFlex.Api.Migration
import CryptoFlex.Api.Returned
import CryptoFlex.Base64
import CryptoFlex.Cli.AtomicWrite
import CryptoFlex.Cli.Bundles
import CryptoFlex.Cli.Calm
import CryptoFlex.Cli.CalmStreams
import CryptoFlex.Cli.Commands
import CryptoFlex.Cli.ConcurrentWrites
import CryptoFlex.Cli.Effects
import CryptoFlex.Cli.Files
import CryptoFlex.Cli.Keygen
import CryptoFlex.Cli.Outputs
import CryptoFlex.Cli.Refinement
import CryptoFlex.Cli.Sessions
import CryptoFlex.Cli.Vault
import CryptoFlex.CodePoints
import CryptoFlex.Combiner
import CryptoFlex.Combiner.Binding
import CryptoFlex.Errors
import CryptoFlex.Header.Canonical
import CryptoFlex.Header.Format
import CryptoFlex.Header.RoundTrip
import CryptoFlex.Header.Scan
import CryptoFlex.Integrity.Blob
import CryptoFlex.Integrity.History
import CryptoFlex.Integrity.Keystore
import CryptoFlex.Integrity.Process
import CryptoFlex.Integrity.Stream
import CryptoFlex.Json.Dumps
import CryptoFlex.Json.Failures
import CryptoFlex.Json.Loads
import CryptoFlex.Json.RoundTrip
import CryptoFlex.Json.Strings
import CryptoFlex.Json.Value
import CryptoFlex.Keystore
import CryptoFlex.Keystore.Bundle
import CryptoFlex.Keystore.Concurrency
import CryptoFlex.Keystore.Custody
import CryptoFlex.Keystore.Export
import CryptoFlex.Keystore.Failures
import CryptoFlex.Keystore.Import
import CryptoFlex.Keystore.Reloading
import CryptoFlex.Keystore.Reopening
import CryptoFlex.Keystore.RoundTrip
import CryptoFlex.Keystore.WellFormed
import CryptoFlex.Lib.BigEndian
import CryptoFlex.Lib.Disk
import CryptoFlex.Lib.Effect
import CryptoFlex.Lib.Loop
import CryptoFlex.Lib.Mirror
import CryptoFlex.Lib.Pool
import CryptoFlex.Lib.Publication
import CryptoFlex.Lib.Replacement
import CryptoFlex.Lib.Resumption
import CryptoFlex.Lib.Scanner
import CryptoFlex.Lib.Total
import CryptoFlex.Lib.Transition
import CryptoFlex.Policy.Acceptance
import CryptoFlex.Policy.Decision
import CryptoFlex.Policy.Engine
import CryptoFlex.Policy.Monotone
import CryptoFlex.Policy.Protection
import CryptoFlex.Policy.QuantumSafe
import CryptoFlex.Profiles
import CryptoFlex.Python
import CryptoFlex.Runtime
import CryptoFlex.Sources
import CryptoFlex.Sources.Contracts
import CryptoFlex.Streaming.Bounds
import CryptoFlex.Streaming.Cursor
import CryptoFlex.Streaming.Decoding
import CryptoFlex.Streaming.Decrypt
import CryptoFlex.Streaming.DecryptRun
import CryptoFlex.Streaming.Downgrade
import CryptoFlex.Streaming.Encrypt
import CryptoFlex.Streaming.FailedMigration
import CryptoFlex.Streaming.Failures
import CryptoFlex.Streaming.Faults
import CryptoFlex.Streaming.FileObjects
import CryptoFlex.Streaming.Frames
import CryptoFlex.Streaming.Intake
import CryptoFlex.Streaming.Migrate
import CryptoFlex.Streaming.MigrateRun
import CryptoFlex.Streaming.MigrationChain
import CryptoFlex.Streaming.Reader
import CryptoFlex.Streaming.RoundTrip
import CryptoFlex.Streaming.Segmentation
import CryptoFlex.Streaming.Sequence
import CryptoFlex.Streaming.Simulation
import CryptoFlex.Streaming.Stream
import CryptoFlex.Streaming.Transcript
import CryptoFlex.Streaming.Truncation
import CryptoFlex.Utils
import CryptoFlex.Zeroization
import CryptoFlex.Zeroization.History
import CryptoFlex.Zeroization.Migrate
