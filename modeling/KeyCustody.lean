import KeyCustody.Atomic
import KeyCustody.Bytes.Basic
import KeyCustody.Bytes.Hex
import KeyCustody.Cipher.Aes
import KeyCustody.Cipher.Modes
import KeyCustody.CommandLine
import KeyCustody.Curve.Edwards25519
import KeyCustody.Curve.P256
import KeyCustody.Custodian
import KeyCustody.Decimal
import KeyCustody.Der.Basic
import KeyCustody.Der.Oid
import KeyCustody.Digest.Iterated
import KeyCustody.Digest.Scrypt
import KeyCustody.Digest.Sha256
import KeyCustody.Digest.Sha512
import KeyCustody.Ecdsa.Document
import KeyCustody.Ecdsa.Signature
import KeyCustody.Ed25519.Signature
import KeyCustody.Envelope
import KeyCustody.Failure
import KeyCustody.FileTree
import KeyCustody.Generation
import KeyCustody.Json.Fault
import KeyCustody.Json.Number
import KeyCustody.Json.Record
import KeyCustody.Json.Skipped
import KeyCustody.Json.Text
import KeyCustody.Json.Value
import KeyCustody.Key.Kind
import KeyCustody.Key.Material
import KeyCustody.Key.Pair
import KeyCustody.KeyInfo.Encrypted
import KeyCustody.KeyInfo.Plain
import KeyCustody.Main
import KeyCustody.Number
import KeyCustody.Password
import KeyCustody.Path
import KeyCustody.Pem.Base64
import KeyCustody.Pem.Block
import KeyCustody.Program
import KeyCustody.Proofs.Aes
import KeyCustody.Proofs.Chaining
import KeyCustody.Proofs.ConcurrentReplacement
import KeyCustody.Proofs.ConcurrentWriting
import KeyCustody.Proofs.ContentFailures
import KeyCustody.Proofs.DefaultPath
import KeyCustody.Proofs.Der
import KeyCustody.Proofs.DocumentKind
import KeyCustody.Proofs.DocumentNames
import KeyCustody.Proofs.EcdsaDocument
import KeyCustody.Proofs.EncryptedInfo
import KeyCustody.Proofs.Envelope
import KeyCustody.Proofs.EnvelopeGrammar
import KeyCustody.Proofs.EnvelopeOutcomes
import KeyCustody.Proofs.FileTree
import KeyCustody.Proofs.ForeignAlgorithm
import KeyCustody.Proofs.ForeignScheme
import KeyCustody.Proofs.Formats
import KeyCustody.Proofs.GeneratedKeys
import KeyCustody.Proofs.HexText
import KeyCustody.Proofs.ImportSoundness
import KeyCustody.Proofs.Interleaving
import KeyCustody.Proofs.IterationLimit
import KeyCustody.Proofs.JsonHyphens
import KeyCustody.Proofs.JsonMembers
import KeyCustody.Proofs.JsonNumerals
import KeyCustody.Proofs.JsonOutline
import KeyCustody.Proofs.JsonReaders
import KeyCustody.Proofs.JsonRecord
import KeyCustody.Proofs.JsonScalars
import KeyCustody.Proofs.JsonSkipping
import KeyCustody.Proofs.JsonText
import KeyCustody.Proofs.KeyDocument
import KeyCustody.Proofs.KeyMetadata
import KeyCustody.Proofs.KeyPair
import KeyCustody.Proofs.KeySpelling
import KeyCustody.Proofs.KeyidDocument
import KeyCustody.Proofs.Keyids
import KeyCustody.Proofs.KindMismatch
import KeyCustody.Proofs.Marks
import KeyCustody.Proofs.Neighbours
import KeyCustody.Proofs.Numerals
import KeyCustody.Proofs.OrderlyReplacement
import KeyCustody.Proofs.OrderlyWriting
import KeyCustody.Proofs.PairAtomicity
import KeyCustody.Proofs.PasswordEntry
import KeyCustody.Proofs.PasswordKeys
import KeyCustody.Proofs.PasswordState
import KeyCustody.Proofs.Paths
import KeyCustody.Proofs.Payload
import KeyCustody.Proofs.Pem
import KeyCustody.Proofs.PlainRoundTrip
import KeyCustody.Proofs.PrivateInfo
import KeyCustody.Proofs.PublicBlock
import KeyCustody.Proofs.PublicFile
import KeyCustody.Proofs.PublicRoundTrip
import KeyCustody.Proofs.PublicView
import KeyCustody.Proofs.PublishedHalf
import KeyCustody.Proofs.Reading
import KeyCustody.Proofs.RecordMembers
import KeyCustody.Proofs.RecordReaders
import KeyCustody.Proofs.RejectedWrites
import KeyCustody.Proofs.Replacement
import KeyCustody.Proofs.ReplacementFrame
import KeyCustody.Proofs.RoundTrip
import KeyCustody.Proofs.RsaCanonical
import KeyCustody.Proofs.RsaDocument
import KeyCustody.Proofs.RsaEncryption
import KeyCustody.Proofs.RsaSignature
import KeyCustody.Proofs.RsaSizes
import KeyCustody.Proofs.Run
import KeyCustody.Proofs.SettingsDocument
import KeyCustody.Proofs.ShownPaths
import KeyCustody.Proofs.Siblings
import KeyCustody.Proofs.Signing
import KeyCustody.Proofs.Stored
import KeyCustody.Proofs.SurroundedBlock
import KeyCustody.Proofs.Tampering
import KeyCustody.Proofs.UnexpectedKind
import KeyCustody.Proofs.Utf8
import KeyCustody.Proofs.Walk
import KeyCustody.Proofs.WriteFrame
import KeyCustody.Proofs.Writing
import KeyCustody.Report
import KeyCustody.Rsa.Basic
import KeyCustody.Rsa.Document
import KeyCustody.Rsa.Signature
import KeyCustody.Settings
import KeyCustody.Text.Characters
import KeyCustody.Text.Utf8
import KeyCustody.World
