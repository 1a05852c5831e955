import ShadeIndexer.Core.Encoding
import ShadeIndexer.Bytecode.DoubleHash
import ShadeIndexer.Bytecode.Prefilter
import ShadeIndexer.Bytecode.Renaming
import ShadeIndexer.Bytecode.Reordering
import ShadeIndexer.Bytecode.FlagNames
import ShadeIndexer.Enrich.PoolDiscovery
import ShadeIndexer.Enrich.Overflow
import ShadeIndexer.Enrich.Queries
import ShadeIndexer.Enrich.View
import ShadeIndexer.Bin.Migrate
import ShadeIndexer.Bin.PagingSafety
import ShadeIndexer.Bin.Inspection
import ShadeIndexer.Bin.StoredColumns
import ShadeIndexer.Bin.Completion
import ShadeIndexer.Bin.Quiescence
import ShadeIndexer.Bin.Restarts
import ShadeIndexer.Bin.Resumption
import ShadeIndexer.Sdk.Abandonment
import ShadeIndexer.Sdk.Consumption
