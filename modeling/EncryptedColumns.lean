import EncryptedColumns.EncryptedColumn
import EncryptedColumns.Registry.Access
import EncryptedColumns.Registry.Document
import EncryptedColumns.Registry.Migration
import EncryptedColumns.Sql.Predicate
import EncryptedColumns.Proofs.StringText
import EncryptedColumns.Proofs.NumberText
import EncryptedColumns.Proofs.FloatText
import EncryptedColumns.Proofs.SequenceText
import EncryptedColumns.Proofs.ValueText
import EncryptedColumns.Proofs.IntegerText
import EncryptedColumns.Proofs.RoundTrip
import EncryptedColumns.Proofs.Columns
import EncryptedColumns.Proofs.SetupStatements
import EncryptedColumns.Proofs.SqlTokens
import EncryptedColumns.Proofs.Templates
import EncryptedColumns.Proofs.PredicateRuns
import EncryptedColumns.Proofs.PredicateTemplates
import EncryptedColumns.Proofs.Placeholders
import EncryptedColumns.Proofs.FragmentShapes
import EncryptedColumns.Proofs.Cells
import EncryptedColumns.Proofs.Additions
import EncryptedColumns.Proofs.Objects
import EncryptedColumns.Proofs.Echo
import EncryptedColumns.Proofs.Operands
import EncryptedColumns.Proofs.Rows
import EncryptedColumns.Proofs.TypedColumns
import EncryptedColumns.Proofs.RecordText
import EncryptedColumns.Proofs.EnvelopeText
import EncryptedColumns.Proofs.ReaderResults
import EncryptedColumns.Proofs.RegistryText
import EncryptedColumns.Proofs.AdditionOrder
import EncryptedColumns.Proofs.DecodedValues
import EncryptedColumns.Proofs.PrintableText
import EncryptedColumns.Proofs.NullableColumns
import EncryptedColumns.Proofs.JoinOrder
import EncryptedColumns.Proofs.IntegerColumns
import EncryptedColumns.Proofs.KindsApart
import EncryptedColumns.Proofs.SkippedText
import EncryptedColumns.Proofs.ReadersAgree
import EncryptedColumns.Proofs.EnvelopeReaders
import EncryptedColumns.Proofs.FailedCalls
import EncryptedColumns.Proofs.MigrationStatements
import EncryptedColumns.Proofs.Traversals
import EncryptedColumns.Proofs.ObjectCells
import EncryptedColumns.Proofs.QualifiedNames
import EncryptedColumns.Proofs.Inspection
import EncryptedColumns.Proofs.JsonPlaintexts
import EncryptedColumns.Proofs.CastOperands
