import StoolapMariadb.Lib.Runs
import StoolapMariadb.Lib.Kleene
import StoolapMariadb.Lib.Sorting
import StoolapMariadb.Lib.StateExcept
import StoolapMariadb.Lib.ExceptList
import StoolapMariadb.Lib.Bytes
import StoolapMariadb.Lib.Reading
import StoolapMariadb.Lib.Lexer
import StoolapMariadb.Lib.Parsing
import StoolapMariadb.Lib.Spelling
import StoolapMariadb.Lib.Utf8
import StoolapMariadb.Lib.PrefixCode
import StoolapMariadb.Lib.SelectRows
import StoolapMariadb.Lib.Joins
import StoolapMariadb.AutoIncrement.Cursor
import StoolapMariadb.AutoIncrement.Statements
import StoolapMariadb.AutoIncrement.Reservations
import StoolapMariadb.Value
import StoolapMariadb.Types
import StoolapMariadb.Record
import StoolapMariadb.RecordWrite
import StoolapMariadb.RecordCodec
import StoolapMariadb.Read
import StoolapMariadb.Cursor
import StoolapMariadb.CursorOrder
import StoolapMariadb.CursorPages
import StoolapMariadb.IndexOrder
import StoolapMariadb.Key
import StoolapMariadb.KeyOrder
import StoolapMariadb.KeyParts
import StoolapMariadb.KeyRead
import StoolapMariadb.KeyReadRows
import StoolapMariadb.ExactLookup
import StoolapMariadb.FilteredRange
import StoolapMariadb.Write
import StoolapMariadb.Unique
import StoolapMariadb.UniqueBatch
import StoolapMariadb.UpdateAtomic
import StoolapMariadb.ChangedFields
import StoolapMariadb.Session
import StoolapMariadb.SessionState
import StoolapMariadb.SessionSpec
import StoolapMariadb.SqlWrite
import StoolapMariadb.WriteThrough
import StoolapMariadb.BulkInsert
import StoolapMariadb.BulkAtomicity
import StoolapMariadb.TableName
import StoolapMariadb.Packet
import StoolapMariadb.PacketCodec
import StoolapMariadb.HexCodec
import StoolapMariadb.RecordCount
import StoolapMariadb.RecordCountRuns
import StoolapMariadb.Ddl.Drop
import StoolapMariadb.Ddl.Create
import StoolapMariadb.Ddl.ReadBack
import StoolapMariadb.SqlGen.Modify
import StoolapMariadb.SqlGen.Typing
import StoolapMariadb.SqlGen.Update
import StoolapMariadb.SqlGen.Eval
import StoolapMariadb.SqlGen.Guard
import StoolapMariadb.SqlGen.Truncate
import StoolapMariadb.SqlGen.Exists
import StoolapMariadb.SqlGen.Meaning
import StoolapMariadb.SqlGen.Merge
import StoolapMariadb.SqlGen.FromRows
import StoolapMariadb.SqlGen.SetOrder
import StoolapMariadb.SqlGen.Places
import StoolapMariadb.SqlGen.Collations
import StoolapMariadb.SqlGen.ModifyCollations
import StoolapMariadb.SqlGen.IntegerItems
import StoolapMariadb.SqlGen.Translation
import StoolapMariadb.SqlGen.UpdateCounts
import StoolapMariadb.SqlGen.Text
import StoolapMariadb.SqlGen.Parser
import StoolapMariadb.SqlGen.Shape
import StoolapMariadb.SqlGen.Lexing
import StoolapMariadb.SqlGen.Pieces
import StoolapMariadb.SqlGen.Operands
import StoolapMariadb.SqlGen.Clauses
import StoolapMariadb.SqlGen.ReadBack
import StoolapMariadb.SqlGen.Formed
import StoolapMariadb.SqlGen.Parentheses
import StoolapMariadb.SqlGen.GeneratedText
import StoolapMariadb.Ddl.Alter
import StoolapMariadb.Lib.Checkpoints
import StoolapMariadb.Transaction.Connection
import StoolapMariadb.Transaction.Ledger
import StoolapMariadb.Transaction.Savepoints
import StoolapMariadb.Transaction.Callbacks
import StoolapMariadb.Transaction.Connections
import StoolapMariadb.Transaction.Restoring
